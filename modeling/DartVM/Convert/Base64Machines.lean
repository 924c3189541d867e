import DartVM.Convert.Base64
import DartVM.Lib.Transducer

namespace dart.convert.base64
open dart.transducer List UInt8

/-- What an encoding is made of. -/
inductive Symbol where
  | sextet (value : Nat)
  | pad
deriving DecidableEq

/-- The encoding of RFC 4648, before characters are chosen. -/
def symbols : List UInt8 → List Symbol
  | [] => []
  | [a] => [.sextet (a.toNat / 4), .sextet (a.toNat % 4 * 16), .pad, .pad]
  | [a, b] =>
    [.sextet (a.toNat / 4), .sextet (a.toNat % 4 * 16 + b.toNat / 16), .sextet (b.toNat % 16 * 4), .pad]
  | a :: b :: c :: rest =>
    .sextet (a.toNat / 4) :: .sextet (a.toNat % 4 * 16 + b.toNat / 16) :: .sextet (b.toNat % 16 * 4 + c.toNat / 64) ::
      .sextet (c.toNat % 64) :: symbols rest

/-- The character of a symbol in an alphabet. -/
def Symbol.char (alphabet : List Nat) : Symbol → Nat
  | .sextet value => alphabet.getD value 0
  | .pad => padding_char

/-- The encoding of RFC 4648. -/
def rfc4648 (alphabet : List Nat) (bytes : List UInt8) : List Nat := (symbols bytes).map (Symbol.char alphabet)

/-- The ways to spell a symbol: either alphabet may be used, and the padding may be escaped. -/
def Symbol.Spelled : Symbol → List Nat → Prop
  | .sextet value, chars =>
    value < 64 ∧ (chars = [base64_alphabet.getD value 0] ∨ chars = [base64_url_alphabet.getD value 0])
  | .pad, chars => chars = [0x3d] ∨ chars = [0x25, 0x33, 0x44] ∨ chars = [0x25, 0x33, 0x64]

/-- A text is a canonical encoding. -/
def Encodes (text : List Nat) (bytes : List UInt8) : Prop :=
  ∃ parts : List (List Nat), List.Forall₂ Symbol.Spelled (symbols bytes) parts ∧ text = parts.flatten

/-- An encoder holds up to two bytes. -/
def encode_step (alphabet : List Nat) : Transducer (List UInt8) UInt8 Nat
  | [a, b], c => some ([], rfc4648 alphabet [a, b, c])
  | pending, c => some (pending ++ [c], [])

lemma encode_step_pending {alphabet : List Nat} {pending : List UInt8} (h : pending.length < 2) (byte : UInt8) :
    encode_step alphabet pending byte = some (pending ++ [byte], []) := by
  match pending, h with
  | [], _ | [_], _ => rfl

/-- What is written for some bytes and for those that are held after them is their encoding. -/
lemma run_encode_step (alphabet : List Nat) {pending : List UInt8} (hpend : pending.length < 3) (bytes : List UInt8) :
    ∃ pending' out, run (encode_step alphabet) pending bytes = some (pending', out) ∧ pending'.length < 3 ∧
      pending'.length = (pending.length + bytes.length) % 3 ∧ out.length = (pending.length + bytes.length) / 3 * 4 ∧
      out ++ rfc4648 alphabet pending' = rfc4648 alphabet (pending ++ bytes) := by
  induction bytes generalizing pending with
  | nil =>
    refine ⟨pending, [], rfl, hpend, ?_, ?_, by rw [append_nil, nil_append]⟩
    · exact (Nat.mod_eq_of_lt hpend).symm
    · rw [length_nil, length_nil]
      omega
  | cons c bytes ih =>
    by_cases hfull : pending.length = 2
    · obtain ⟨a, b, rfl⟩ := length_eq_two.mp hfull
      obtain ⟨pending', out, hrun, hlt, hmod, hlen, henc⟩ := @ih [] (by decide)
      refine ⟨pending', rfc4648 alphabet [a, b, c] ++ out, ?_, hlt, ?_, ?_, ?_⟩
      · rw [run_cons_of_step rfl, hrun, Option.map_some]
      · simp only [length_cons, length_nil] at hmod ⊢
        omega
      · simp only [length_append, length_cons, length_nil, rfc4648, symbols, length_map] at hlen ⊢
        omega
      · rw [append_assoc, henc]
        rfl
    · have hsnoc : (pending ++ [c]).length = pending.length + 1 := length_append
      obtain ⟨pending', out, hrun, hlt, hmod, hlen, henc⟩ := @ih (pending ++ [c]) (by omega)
      rw [append_assoc] at henc
      refine ⟨pending', out, ?_, hlt, ?_, ?_, henc⟩
      · rw [run_cons_of_step (encode_step_pending (by omega) c), hrun]
        rfl
      · rw [length_cons]
        omega
      · rw [length_cons]
        omega

/-- The value of a character in one of the alphabets. -/
def sextet_value (char : Nat) : Option Nat :=
  if char < 128 then
    match inverse_alphabet.getD char invalid with
    | .ofNat value => some value
    | .negSucc _ => none
  else none

/-- A decoder holds up to three characters, or expects the rest of the padding. -/
inductive DecoderState where
  | characters (pending : List Nat)
  | padding (expected : Nat)

/-- The bytes of four characters. -/
def three_bytes (a b c d : Nat) : List UInt8 :=
  [UInt8.ofNat (a * 4 + b / 16), UInt8.ofNat (b % 16 * 16 + c / 4), UInt8.ofNat (c % 4 * 64 + d)]

/-- The first character of a padding ends the characters. -/
def begin_padding (rest : Nat) : List Nat → Option (DecoderState × List UInt8)
  | [a, b] => if b % 16 = 0 then some (.padding (3 + rest), [UInt8.ofNat (a * 4 + b / 16)]) else none
  | [a, b, c] =>
    if c % 4 = 0 then some (.padding rest, [UInt8.ofNat (a * 4 + b / 16), UInt8.ofNat (b % 16 * 16 + c / 4)]) else none
  | _ => none

/-- How many characters of the padding are expected after one more. -/
def padding_step (expected char : Nat) : Option Nat :=
  if expected = 3 then
    if char = padding_char then some 0
    else if char = char_percent then some 2
    else none
  else if expected = 2 ∨ expected = 5 then
    if char = char_3 then some (expected - 1) else none
  else if expected = 1 ∨ expected = 4 then
    if char ||| 0x20 = char_d then some (expected - 1) else none
  else none

def decode_step : Transducer DecoderState Nat UInt8
  | .characters pending, char =>
    match sextet_value char with
    | some value =>
      match pending with
      | [a, b, c] => some (.characters [], three_bytes a b c value)
      | pending => some (.characters (pending ++ [value]), [])
    | none =>
      if char = padding_char then begin_padding 0 pending
      else if char = char_percent then begin_padding 2 pending
      else none
  | .padding expected, char => (padding_step expected char).map fun expected => (.padding expected, [])

/-- The states in which a text may end. -/
def DecoderState.Complete : DecoderState → Prop
  | .characters pending => pending = []
  | .padding expected => expected = 0

variable {char value : Nat}

lemma sextet_value_eq_some_iff : sextet_value char = some value ↔
      value < 64 ∧ (char = base64_alphabet.getD value 0 ∨ char = base64_url_alphabet.getD value 0) := by
  have hval : ∀ char < 128, ∀ value ∈ sextet_value char,
      value < 64 ∧ (char = base64_alphabet.getD value 0 ∨ char = base64_url_alphabet.getD value 0) := by decide +kernel
  have hchar : ∀ value < 64, sextet_value (base64_alphabet.getD value 0) = some value ∧
      sextet_value (base64_url_alphabet.getD value 0) = some value := by decide +kernel
  constructor
  · intro h
    have hlt : char < 128 := by
      by_contra hge
      rw [sextet_value, if_neg hge] at h
      cases h
    exact hval char hlt value h
  · rintro ⟨hlt, rfl | rfl⟩
    · exact (hchar value hlt).1
    · exact (hchar value hlt).2

variable {char : Nat} {text : List Nat} {pending : List Nat} {state : DecoderState} {out : List UInt8} {expected : Nat}

lemma or_eq_char_d_iff : char ||| 0x20 = char_d ↔ char = 0x44 ∨ char = 0x64 := by
  constructor
  · intro h
    have hle : char ≤ 0x64 := by
      calc char ≤ char ||| 0x20 := Nat.left_le_or
        _ = 0x64 := h
    have hall : ∀ char ≤ 0x64, char ||| 0x20 = char_d → char = 0x44 ∨ char = 0x64 := by decide +kernel
    exact hall char hle h
  · rintro (rfl | rfl) <;> rfl

lemma eq_of_padding_step {expected char expected' : Nat} (h : padding_step expected char = some expected') :
    expected = 3 ∧ char = 0x3d ∧ expected' = 0 ∨ expected = 3 ∧ char = 0x25 ∧ expected' = 2 ∨
      (expected = 2 ∧ expected' = 1 ∨ expected = 5 ∧ expected' = 4) ∧ char = 0x33 ∨
      (expected = 1 ∧ expected' = 0 ∨ expected = 4 ∧ expected' = 3) ∧ (char = 0x44 ∨ char = 0x64) := by
  simp only [padding_step, or_eq_char_d_iff] at h
  split_ifs at h with hthree hequals hpct htwo hchar3 hone hchard <;> cases h
  · exact .inl ⟨hthree, hequals, rfl⟩
  · exact .inr (.inl ⟨hthree, hpct, rfl⟩)
  · obtain rfl | rfl := htwo
    · exact .inr (.inr (.inl ⟨.inl ⟨rfl, rfl⟩, hchar3⟩))
    · exact .inr (.inr (.inl ⟨.inr ⟨rfl, rfl⟩, hchar3⟩))
  · obtain rfl | rfl := hone
    · exact .inr (.inr (.inr ⟨.inl ⟨rfl, rfl⟩, hchard⟩))
    · exact .inr (.inr (.inr ⟨.inr ⟨rfl, rfl⟩, hchard⟩))

/-- The padding is read as far as it goes. What is left is refused. -/
def read_padding : Nat → List Nat → Nat × List Nat
  | expected, [] => (expected, [])
  | expected, char :: text =>
    match padding_step expected char with
    | some expected' => read_padding expected' text
    | none => (expected, char :: text)

lemma run_padding (expected : Nat) (text : List Nat) : run decode_step (.padding expected) text =
      if (read_padding expected text).2 = [] then some (.padding (read_padding expected text).1, []) else none := by
  induction text generalizing expected with
  | nil => rfl
  | cons char text ih =>
    cases hstep : padding_step expected char with
    | none =>
      have href : decode_step (.padding expected) char = none := by simp [decode_step, hstep]
      rw [run_cons_of_refused href]
      simp [read_padding, hstep]
    | some expected' =>
      have hread : decode_step (.padding expected) char = some (.padding expected', []) := by
        simp [decode_step, hstep]
      rw [run_cons_of_step hread, ih]
      simp only [read_padding, hstep]
      split_ifs <;> rfl

/-- A padding or the first part of one, with the number of characters that are still expected. -/
inductive PadPrefix : List Nat → Nat → Prop where
  | equals : PadPrefix [0x3d] 0
  | percent : PadPrefix [0x25] 2
  | three : PadPrefix [0x25, 0x33] 1
  | upper : PadPrefix [0x25, 0x33, 0x44] 0
  | lower : PadPrefix [0x25, 0x33, 0x64] 0

open base64.Symbol

lemma PadPrefix.spelled (h : PadPrefix text 0) : pad.Spelled text := by
  cases h with
  | equals => exact .inl rfl
  | upper => exact .inr (.inl rfl)
  | lower => exact .inr (.inr rfl)

/-- The texts after which some characters are left of those that a padding expects. -/
def PaddingText (text : List Nat) (left : Nat) : Nat → Prop
  | 0 => text = [] ∧ left = 0
  | 1 => text = [] ∧ left = 1 ∨ (text = [0x44] ∨ text = [0x64]) ∧ left = 0
  | 2 => PadPrefix (0x25 :: text) left
  | 3 => text = [] ∧ left = 3 ∨ PadPrefix text left
  | 4 => text = [] ∧ left = 4 ∨
      ∃ rest, (text = 0x44 :: rest ∨ text = 0x64 :: rest) ∧ (rest = [] ∧ left = 3 ∨ PadPrefix rest left)
  | 5 => (∃ left', PadPrefix (0x25 :: text) left' ∧ left = left' + 3) ∨
      ∃ rest rest', PadPrefix (0x25 :: rest) 0 ∧ PadPrefix rest' left ∧ text = rest ++ rest'
  | _ => True

lemma paddingText_of_read {expected left : Nat} (h : read_padding expected text = (left, [])) :
    PaddingText text left expected := by
  induction text generalizing expected with
  | nil =>
    obtain rfl : expected = left := (Prod.mk.inj h).1
    match expected with
    | 0 => exact ⟨rfl, rfl⟩
    | 1 => exact .inl ⟨rfl, rfl⟩
    | 2 => exact .percent
    | 3 => exact .inl ⟨rfl, rfl⟩
    | 4 => exact .inl ⟨rfl, rfl⟩
    | 5 => exact .inl ⟨2, .percent, rfl⟩
    | _ + 6 => trivial
  | cons char text ih =>
    rw [read_padding] at h
    cases hstep : padding_step expected char with
    | none =>
      rw [hstep] at h
      exact absurd (Prod.mk.inj h).2 (cons_ne_nil _ _)
    | some expected' =>
      rw [hstep] at h
      have htext := ih h
      obtain ⟨rfl, rfl, rfl⟩ | ⟨rfl, rfl, rfl⟩ | ⟨⟨rfl, rfl⟩ | ⟨rfl, rfl⟩, rfl⟩ | ⟨⟨rfl, rfl⟩ | ⟨rfl, rfl⟩, hchar⟩ :=
        eq_of_padding_step hstep
      · obtain ⟨rfl, rfl⟩ := htext
        exact .inr .equals
      · exact .inr htext
      · obtain ⟨rfl, rfl⟩ | ⟨rfl | rfl, rfl⟩ := htext
        · exact .three
        · exact .upper
        · exact .lower
      · obtain ⟨rfl, rfl⟩ | ⟨rest, rfl | rfl, ⟨rfl, rfl⟩ | hrest⟩ := htext
        · exact .inl ⟨1, .three, rfl⟩
        · exact .inl ⟨0, .upper, rfl⟩
        · exact .inr ⟨[0x33, 0x44], rest, .upper, hrest, rfl⟩
        · exact .inl ⟨0, .lower, rfl⟩
        · exact .inr ⟨[0x33, 0x64], rest, .lower, hrest, rfl⟩
      · obtain ⟨rfl, rfl⟩ := htext
        obtain rfl | rfl := hchar
        · exact .inr ⟨.inl rfl, rfl⟩
        · exact .inr ⟨.inr rfl, rfl⟩
      · obtain rfl | rfl := hchar
        · exact .inr ⟨text, .inl rfl, htext⟩
        · exact .inr ⟨text, .inr rfl, htext⟩

lemma decode_step_full (h : sextet_value char = some value) (a b c : Nat) :
    decode_step (.characters [a, b, c]) char = some (.characters [], three_bytes a b c value) := by
  simp [decode_step, h]

lemma decode_step_value (h : sextet_value char = some value) (hlen : pending.length < 3) :
    decode_step (.characters pending) char = some (.characters (pending ++ [value]), []) := by
  match pending, hlen with
  | [], _ | [_], _ | [_, _], _ => simp [decode_step, h]

lemma decode_step_no_value (h : sextet_value char = none) (pending : List Nat) :
    decode_step (.characters pending) char = if char = padding_char then begin_padding 0 pending
      else if char = char_percent then begin_padding 2 pending else none := by
  simp [decode_step, h]

lemma eq_of_begin_padding {rest : Nat} (h : begin_padding rest pending = some (state, out)) :
    (∃ a b, pending = [a, b] ∧ b % 16 = 0 ∧ state = .padding (3 + rest) ∧ out = [ofNat (a * 4 + b / 16)]) ∨
      ∃ a b c, pending = [a, b, c] ∧ c % 4 = 0 ∧ state = .padding rest ∧
        out = [ofNat (a * 4 + b / 16), ofNat (b % 16 * 16 + c / 4)] := by
  match pending with
  | [] | [_] | _ :: _ :: _ :: _ :: _ => cases h
  | [a, b] =>
    simp only [begin_padding] at h
    split_ifs at h with h0
    cases h
    exact .inl ⟨a, b, rfl, h0, rfl, rfl⟩
  | [a, b, c] =>
    simp only [begin_padding] at h
    split_ifs at h with h0
    cases h
    exact .inr ⟨a, b, c, rfl, h0, rfl, rfl⟩

/-- Nothing is written for a padding. -/
lemma paddingText_of_run (h : run decode_step (.padding expected) text = some (state, out)) :
    out = [] ∧ ∃ left, state = .padding left ∧ PaddingText text left expected := by
  rw [run_padding] at h
  split_ifs at h with hread
  cases h
  exact ⟨rfl, _, rfl, paddingText_of_read (Prod.ext rfl hread)⟩

lemma toNat_ofNat {n : Nat} (h : n < 256) : (ofNat n).toNat = n := by
  exact Nat.mod_eq_of_lt h

lemma symbols_three_bytes {a b c d : Nat} (ha : a < 64) (hb : b < 64) (hc : c < 64) (hd : d < 64) (out : List UInt8) :
    symbols (three_bytes a b c d ++ out) = .sextet a :: .sextet b :: .sextet c :: .sextet d :: symbols out := by
  simp only [three_bytes, cons_append, nil_append, symbols]
  rw [toNat_ofNat (by omega), toNat_ofNat (by omega), toNat_ofNat (by omega),
    show (a * 4 + b / 16) / 4 = a by omega, show (a * 4 + b / 16) % 4 * 16 + (b % 16 * 16 + c / 4) / 16 = b by omega,
    show (b % 16 * 16 + c / 4) % 16 * 4 + (c % 4 * 64 + d) / 64 = c by omega, show (c % 4 * 64 + d) % 64 = d by omega]

lemma symbols_one_byte {a b : Nat} (ha : a < 64) (hb : b < 64) (h0 : b % 16 = 0) :
    symbols [ofNat (a * 4 + b / 16)] = [.sextet a, .sextet b, .pad, .pad] := by
  simp only [symbols]
  rw [toNat_ofNat (by omega), show (a * 4 + b / 16) / 4 = a by omega, show (a * 4 + b / 16) % 4 * 16 = b by omega]

lemma symbols_two_bytes {a b c : Nat} (ha : a < 64) (hb : b < 64) (hc : c < 64) (h0 : c % 4 = 0) :
    symbols [ofNat (a * 4 + b / 16), ofNat (b % 16 * 16 + c / 4)] = [.sextet a, .sextet b, .sextet c, .pad] := by
  simp only [symbols]
  rw [toNat_ofNat (by omega), toNat_ofNat (by omega), show (a * 4 + b / 16) / 4 = a by omega, show (a * 4 + b / 16) % 4
    * 16 + (b % 16 * 16 + c / 4) / 16 = b by omega, show (b % 16 * 16 + c / 4) % 16 * 4 = c by omega]

variable {pending : List Nat} {text : List Nat}

/-- The text from the first character of a padding on. -/
lemma spelled_of_begin_padding (hlt : ∀ value ∈ pending, value < 64) {state state' : DecoderState}
    {out out' : List UInt8} (hstep : (if char = padding_char then begin_padding 0 pending
      else if char = char_percent then begin_padding 2 pending else none) = some (state, out))
    (hrun : run decode_step state text = some (state', out')) (hcomp : state'.Complete) :
    ∃ rest parts, symbols (out ++ out') = pending.map .sextet ++ rest ∧ List.Forall₂ Symbol.Spelled rest parts ∧
      char :: text = parts.flatten := by
  have hpad {expected : Nat} (h : run decode_step (.padding expected) text = some (state', out')) :
      out' = [] ∧ PaddingText text 0 expected := by
    obtain ⟨rfl, left, rfl, htext⟩ := paddingText_of_run h
    obtain rfl : left = 0 := hcomp
    exact ⟨rfl, htext⟩
  split_ifs at hstep with hequals hpct
  · subst hequals
    obtain ⟨a, b, rfl, h0, rfl, rfl⟩ | ⟨a, b, c, rfl, h0, rfl, rfl⟩ := eq_of_begin_padding hstep
    · obtain ⟨rfl, ⟨-, hl⟩ | htext⟩ := hpad hrun
      · cases hl
      · exact ⟨[.pad, .pad], [[0x3d], text], symbols_one_byte (hlt a (by simp)) (hlt b (by simp)) h0,
          .cons (.inl rfl) (.cons htext.spelled .nil), by simp [padding_char]⟩
    · obtain ⟨rfl, rfl, -⟩ := hpad hrun
      exact ⟨[.pad], [[0x3d]], symbols_two_bytes (hlt a (by simp)) (hlt b (by simp)) (hlt c (by simp)) h0,
        .cons (.inl rfl) .nil, rfl⟩
  · subst hpct
    obtain ⟨a, b, rfl, h0, rfl, rfl⟩ | ⟨a, b, c, rfl, h0, rfl, rfl⟩ := eq_of_begin_padding hstep
    · obtain ⟨rfl, ⟨left, -, hl⟩ | ⟨rest, rest', hrest, hrest', rfl⟩⟩ := hpad hrun
      · cases hl
      · exact ⟨[.pad, .pad], [0x25 :: rest, rest'], symbols_one_byte (hlt a (by simp)) (hlt b (by simp)) h0,
          .cons hrest.spelled (.cons hrest'.spelled .nil), by simp [char_percent]⟩
    · obtain ⟨rfl, htext⟩ := hpad hrun
      exact ⟨[.pad], [0x25 :: text], symbols_two_bytes (hlt a (by simp)) (hlt b (by simp)) (hlt c (by simp)) h0,
        .cons (PadPrefix.spelled htext) .nil, by simp [char_percent]⟩

/-- A complete text spells the symbols of what is written, but for those that were read before. -/
lemma spelled_of_run (hlen : pending.length < 4) (hlt : ∀ value ∈ pending, value < 64) {state : DecoderState}
    (hrun : run decode_step (.characters pending) text = some (state, out)) (hcomp : state.Complete)
    : ∃ rest parts, symbols out = pending.map .sextet ++ rest ∧ List.Forall₂ Symbol.Spelled rest parts ∧ text =
    parts.flatten := by
  induction text generalizing pending out with
  | nil =>
    cases hrun
    obtain rfl : pending = [] := hcomp
    exact ⟨[], [], rfl, .nil, rfl⟩
  | cons char text ih =>
    obtain ⟨state', out1, out2, hstep, hrun', rfl⟩ := exists_of_run_cons hrun
    cases hval : sextet_value char with
    | some value =>
      have hspelled : (sextet value).Spelled [char] := by
        simpa [Spelled] using sextet_value_eq_some_iff.mp hval
      have hlt' : value < 64 := (sextet_value_eq_some_iff.mp hval).1
      by_cases hfull : pending.length = 3
      · obtain ⟨a, b, c, rfl⟩ := length_eq_three.mp hfull
        simp only [mem_cons, not_mem_nil, or_false, forall_eq_or_imp, forall_eq] at hlt
        rw [decode_step_full hval] at hstep
        cases hstep
        obtain ⟨rest, parts, hsyms, hparts, rfl⟩ := ih (by decide) (by simp) hrun'
        refine ⟨.sextet value :: rest, [char] :: parts, ?_, .cons hspelled hparts, rfl⟩
        rw [symbols_three_bytes hlt.1 hlt.2.1 hlt.2.2 hlt', hsyms]
        rfl
      rw [decode_step_value hval (by omega)] at hstep
      cases hstep
      obtain ⟨rest, parts, hsyms, hparts, rfl⟩ := ih (by simp; omega) (by simpa [or_imp, forall_and] using ⟨hlt, hlt'⟩)
        hrun'
      refine ⟨.sextet value :: rest, [char] :: parts, ?_, .cons hspelled hparts, rfl⟩
      rw [nil_append, hsyms, map_append, append_assoc]
      rfl
    | none =>
      rw [decode_step_no_value hval] at hstep
      exact spelled_of_begin_padding hlt hstep hrun' hcomp

lemma run_padding_of_spelled (h : pad.Spelled text) : run decode_step (.padding 3) text = some (.padding 0, []) := by
  obtain rfl | rfl | rfl := h <;> rfl

/-- A padding that follows characters. -/
lemma run_first_padding (h : pad.Spelled text) (hexp : expected = 0 ∨ expected = 3)
    (hequals : begin_padding 0 pending = some (.padding expected, out))
    (hpct : begin_padding 2 pending = some (.padding (expected + 2), out)) :
    run decode_step (.characters pending) text = some (.padding expected, out) := by
  have hstep1 : decode_step (.characters pending) 0x3d = some (.padding expected, out) :=
    (decode_step_no_value rfl pending).trans hequals
  have hstep2 : decode_step (.characters pending) 0x25 = some (.padding (expected + 2), out) :=
    (decode_step_no_value rfl pending).trans hpct
  obtain rfl | rfl | rfl := h
  · rw [run_cons_of_step hstep1]
    simp [run]
  · have hread : read_padding (expected + 2) [0x33, 0x44] = (expected, []) := by obtain rfl | rfl := hexp <;> rfl
    rw [run_cons_of_step hstep2, run_padding, hread]
    simp
  · have hread : read_padding (expected + 2) [0x33, 0x64] = (expected, []) := by obtain rfl | rfl := hexp <;> rfl
    rw [run_cons_of_step hstep2, run_padding, hread]
    simp

variable {value : Nat} {bytes : List UInt8}

section
variable (h : (sextet value).Spelled text)
include h

lemma exists_char_of_spelled : ∃ char, text = [char] ∧ sextet_value char = some value := by
  obtain ⟨hlt, rfl | rfl⟩ := h
  · exact ⟨_, rfl, sextet_value_eq_some_iff.mpr ⟨hlt, .inl rfl⟩⟩
  · exact ⟨_, rfl, sextet_value_eq_some_iff.mpr ⟨hlt, .inr rfl⟩⟩

lemma run_sextet (hlen : pending.length < 3) (rest : List Nat) :
    run decode_step (.characters pending) (text ++ rest) = run decode_step (.characters (pending ++ [value])) rest := by
  obtain ⟨char, rfl, hchar⟩ := exists_char_of_spelled h
  rw [cons_append, nil_append, run_cons_of_step (decode_step_value hchar hlen)]
  cases run decode_step (.characters (pending ++ [value])) rest <;> rfl

lemma run_last_sextet (a b c : Nat) (rest : List Nat) : run decode_step (.characters [a, b, c]) (text ++ rest) =
      (run decode_step (.characters []) rest).map fun r => (r.1, three_bytes a b c value ++ r.2) := by
  obtain ⟨char, rfl, hchar⟩ := exists_char_of_spelled h
  rw [cons_append, nil_append, run_cons_of_step (decode_step_full hchar a b c)]

end

/-- The machine accepts every encoding and writes what it encodes. -/
lemma run_of_encodes (h : Encodes text bytes) :
    ∃ state, run decode_step (.characters []) text = some (state, bytes) ∧ state.Complete := by
  obtain ⟨parts, hparts, rfl⟩ := h
  fun_induction symbols bytes generalizing parts with
  | case1 =>
    cases hparts
    exact ⟨.characters [], rfl, rfl⟩
  | case2 a =>
    match parts, hparts with
    | [part1, part2, part3, part4], .cons h1 (.cons h2 (.cons h3 (.cons h4 .nil))) =>
      have hbyte : ofNat (a.toNat / 4 * 4 + a.toNat % 4 * 16 / 16) = a := by
        rw [show a.toNat / 4 * 4 + a.toNat % 4 * 16 / 16 = a.toNat by omega, UInt8.ofNat_toNat]
      have hfst : run decode_step (.characters [a.toNat / 4, a.toNat % 4 * 16]) part3 = some (.padding 3, [_]) :=
        run_first_padding h3 (.inr rfl) (if_pos (Nat.mul_mod_left _ _)) (if_pos (Nat.mul_mod_left _ _))
      refine ⟨.padding 0, ?_, rfl⟩
      simp only [flatten_cons, flatten_nil, append_nil]
      rw [run_sextet h1 (by decide), run_sextet h2 (by simp), nil_append, cons_append, nil_append,
        run_append, hfst, Option.bind_some, run_padding_of_spelled h4, Option.map_some, hbyte]
      rfl
  | case3 a b =>
    match parts, hparts with
    | [part1, part2, part3, part4], .cons h1 (.cons h2 (.cons h3 (.cons h4 .nil))) =>
      have hlt := b.toNat_lt
      have hbytes : [ofNat (a.toNat / 4 * 4 + (a.toNat % 4 * 16 + b.toNat / 16) / 16),
          ofNat ((a.toNat % 4 * 16 + b.toNat / 16) % 16 * 16 + b.toNat % 16 * 4 / 4)] = [a, b] := by
        rw [show a.toNat / 4 * 4 + (a.toNat % 4 * 16 + b.toNat / 16) / 16 = a.toNat by omega, show (a.toNat % 4 * 16 +
          b.toNat / 16) % 16 * 16 + b.toNat % 16 * 4 / 4 = b.toNat by omega, UInt8.ofNat_toNat, UInt8.ofNat_toNat]
      refine ⟨.padding 0, ?_, rfl⟩
      simp only [flatten_cons, flatten_nil, append_nil]
      rw [run_sextet h1 (by decide), run_sextet h2 (by simp), nil_append, cons_append, nil_append,
        run_sextet h3 (by simp), ← hbytes]
      exact run_first_padding h4 (.inl rfl) (if_pos (Nat.mul_mod_left _ _)) (if_pos (Nat.mul_mod_left _ _))
  | case4 a b c rest ih =>
    match parts, hparts with
    | part1 :: part2 :: part3 :: part4 :: parts, .cons h1 (.cons h2 (.cons h3 (.cons h4 hparts))) =>
      obtain ⟨state, hrun, hcomp⟩ := ih parts hparts
      have hltb := b.toNat_lt
      have hltc := c.toNat_lt
      have hbytes : three_bytes (a.toNat / 4) (a.toNat % 4 * 16 + b.toNat / 16) (b.toNat % 16 * 4 + c.toNat / 64)
          (c.toNat % 64) = [a, b, c] := by
        rw [three_bytes, show a.toNat / 4 * 4 + (a.toNat % 4 * 16 + b.toNat / 16) / 16 = a.toNat by omega,
          show (a.toNat % 4 * 16 + b.toNat / 16) % 16 * 16 + (b.toNat % 16 * 4 + c.toNat / 64) / 4 = b.toNat by omega,
          show (b.toNat % 16 * 4 + c.toNat / 64) % 4 * 64 + c.toNat % 64 = c.toNat by omega, UInt8.ofNat_toNat,
          UInt8.ofNat_toNat, UInt8.ofNat_toNat]
      refine ⟨state, ?_, hcomp⟩
      simp only [flatten_cons]
      rw [run_sextet h1 (by decide), run_sextet h2 (by simp), nil_append, cons_append, nil_append,
        run_sextet h3 (by simp), cons_append, cons_append, nil_append, run_last_sextet h4, hrun, hbytes]
      rfl

/-- The machine accepts exactly the canonical encodings, and writes what they encode. -/
lemma run_iff_encodes :
    (∃ state, run decode_step (.characters []) text = some (state, bytes) ∧ state.Complete) ↔ Encodes text bytes := by
  constructor
  · rintro ⟨state, hrun, hcomp⟩
    obtain ⟨rest, parts, hsyms, hparts, htext⟩ := spelled_of_run (by decide) (by simp) hrun hcomp
    obtain rfl : symbols bytes = rest := hsyms
    exact ⟨parts, hparts, htext⟩
  · exact run_of_encodes

end dart.convert.base64
