import DartVM.Convert.Base64Decoding

namespace dart.convert.base64
open dart.transducer List Nat

/-- `=` or `%`. -/
def IsPad (char : Nat) : Prop := char = padding_char ∨ char = char_percent

lemma exists_skipped {skip : Bool} {char char' : Nat} {before before' : List Nat}
    (h : skip_back skip char before = some (char', before')) :
    ∃ skipped, char :: before = skipped ++ char' :: before' := by
  cases skip with
  | false =>
    cases h
    exact ⟨[], rfl⟩
  | true =>
    cases before with
    | nil => cases h
    | cons next before =>
      cases h
      exact ⟨[char], rfl⟩

/-- The characters that one iteration goes back by end in `%` or `=`, or the loop ends. -/
lemma trim_padding_loop_step (fuel char : Nat) (before : List Nat) (padding new_end : Nat) :
    trim_padding_loop (fuel + 1) (char :: before) padding new_end = new_end ∨
      ∃ skipped pad before', char :: before = skipped ++ pad :: before' ∧ IsPad pad ∧
        trim_padding_loop (fuel + 1) (char :: before) padding new_end =
          trim_padding_loop fuel before' (padding + 1) before'.length := by
  rw [trim_padding_loop]
  by_cases hcnt : padding < 2
  · rw [if_pos hcnt]
    by_cases hequals : char = padding_char
    · rw [if_pos hequals]
      exact .inr ⟨[], char, before, rfl, .inl hequals, rfl⟩
    rw [if_neg hequals]
    generalize hskip : (skip_back ((char ||| 0x20) = char_d) char before).bind _ = result
    cases result with
    | none => exact .inl rfl
    | some r =>
      obtain ⟨⟨char1, before1⟩, hskip1, hskip2⟩ := Option.bind_eq_some_iff.mp hskip
      obtain ⟨char2, before2⟩ := r
      obtain ⟨skipped1, heq1⟩ := exists_skipped hskip1
      obtain ⟨skipped2, heq2⟩ := exists_skipped hskip2
      dsimp only
      by_cases hpct : char2 = char_percent
      · rw [if_pos hpct]
        exact .inr ⟨skipped1 ++ skipped2, char2, before2, by rw [heq1, heq2, append_assoc], .inr hpct, rfl⟩
      · rw [if_neg hpct]
        exact .inl rfl
  · rw [if_neg hcnt]
    exact .inl rfl

/-- The result of the loop is an index of `%` or `=`, or the one it began with. -/
lemma trim_padding_loop_cases (fuel : Nat) (before : List Nat) (padding new_end : Nat) :
    trim_padding_loop fuel before padding new_end = new_end ∨
      ∃ skipped pad before', before = skipped ++ pad :: before' ∧ IsPad pad ∧
        trim_padding_loop fuel before padding new_end = before'.length := by
  induction fuel generalizing before padding new_end with
  | zero => exact .inl rfl
  | succ fuel ih =>
    cases before with
    | nil => exact .inl rfl
    | cons char before =>
      obtain hend | ⟨skipped, pad, before', heq, hpad, hloop⟩ := trim_padding_loop_step fuel char before padding new_end
      · exact .inl hend
      obtain hlast | ⟨skipped', pad', before'', heq', hpad', hloop'⟩ := ih before' (padding + 1) before'.length
      · exact .inr ⟨skipped, pad, before', heq, hpad, hloop.trans hlast⟩
      · exact .inr ⟨skipped ++ pad :: skipped', pad', before'', by rw [heq, heq', append_assoc]; rfl, hpad',
          hloop.trans hloop'⟩

lemma trim_padding_chars_cases (input : List Nat) : trim_padding_chars input = input.length ∨
      ∃ before pad after, input = before ++ pad :: after ∧ IsPad pad ∧ trim_padding_chars input = before.length := by
  obtain hend | ⟨skipped, pad, before', heq, hpad, hloop⟩ :=
    trim_padding_loop_cases (input.length + 1) input.reverse 0 input.length
  · exact .inl hend
  refine .inr ⟨before'.reverse, pad, skipped.reverse, ?_, hpad, by rwa [length_reverse]⟩
  rw [← reverse_reverse input, heq]
  simp

/-- A padding, or the first part of one, is skipped in one iteration. -/
lemma trim_padding_loop_pad {pad : List Nat} {left : Nat} (h : PadPrefix pad left) (fuel : Nat) (before : List Nat)
    {padding : Nat} (hcnt : padding < 2) (new_end : Nat) :
    trim_padding_loop (fuel + 1) (pad.reverse ++ before) padding new_end =
      trim_padding_loop fuel before (padding + 1) before.length := by
  cases h <;> simp [trim_padding_loop, hcnt, skip_back, padding_char, char_d, char_3, char_percent]

/-- Nothing is skipped where there is no padding. -/
lemma trim_padding_loop_no_pad (fuel : Nat) {before : List Nat} (h : ∀ char ∈ before, ¬IsPad char) (padding new_end : Nat) :
    trim_padding_loop fuel before padding new_end = new_end := by
  obtain hend | ⟨skipped, pad, before', rfl, hpad, -⟩ := trim_padding_loop_cases fuel before padding new_end
  · exact hend
  · exact absurd hpad (h pad (by simp))

lemma trim_padding_chars_pads {codes pad pad' : List Nat} {left left' : Nat} (hcodes : ∀ char ∈ codes, ¬IsPad char)
    (hpad : PadPrefix pad left) (hpad' : pad' = [] ∨ PadPrefix pad' left') :
    trim_padding_chars (codes ++ (pad ++ pad')) = codes.length := by
  have hcodes' : ∀ char ∈ codes.reverse, ¬IsPad char := fun char hchar => hcodes char (mem_reverse.mp hchar)
  rw [trim_padding_chars, reverse_append, reverse_append, append_assoc]
  obtain rfl | hpad' := hpad'
  · rw [reverse_nil, nil_append, trim_padding_loop_pad hpad _ _ (by decide),
      trim_padding_loop_no_pad _ hcodes', length_reverse]
  obtain ⟨n, hn⟩ : ∃ n, (codes ++ (pad ++ pad')).length = n + 1 := by
    refine exists_eq_succ_of_ne_zero ?_
    cases hpad <;> simp
  rw [trim_padding_loop_pad hpad' _ _ (by decide), hn, trim_padding_loop_pad hpad _ _ (by decide),
    trim_padding_loop_no_pad _ hcodes', length_reverse]

/-- A padding at the end is skipped. -/
lemma trim_padding_chars_lt {pad : Nat} (hpad : IsPad pad) (init : List Nat) :
    trim_padding_chars (init ++ [pad]) < (init ++ [pad]).length := by
  have hpart : ∃ left, PadPrefix [pad] left := by
    obtain rfl | rfl := hpad
    · exact ⟨0, .equals⟩
    · exact ⟨2, .percent⟩
  obtain ⟨left, hpart⟩ := hpart
  rw [trim_padding_chars, reverse_append, trim_padding_loop_pad hpart _ _ (by decide), length_append, length_singleton]
  obtain hend | ⟨skipped, pad', before', heq, -, hloop⟩ :=
    trim_padding_loop_cases (init.length + 1) init.reverse (0 + 1) init.reverse.length
  · rw [hend, length_reverse]
    omega
  have hlen := congrArg length heq
  rw [length_reverse, length_append, length_cons] at hlen
  omega

variable {codes : List Nat} {char : Nat}

lemma demand_append (hcodes : ∀ char ∈ codes, masked_code char ≥ 0) {count : Nat} (hcnt : count < 4) (rest : List Nat)
    : demand count (codes ++ rest) = (count + codes.length) / 4 * 3 + demand ((count + codes.length) % 4) rest := by
  induction codes generalizing count with
  | nil => simp [div_eq_of_lt hcnt, mod_eq_of_lt hcnt]
  | cons char codes ih =>
    rw [cons_append, demand, if_pos (hcodes char (.head _)), length_cons]
    have hcodes' : ∀ char ∈ codes, masked_code char ≥ 0 := fun char hchar => hcodes char (.tail _ hchar)
    split_ifs with hfull
    · subst hfull
      rw [ih hcodes' (by decide), show 3 + (codes.length + 1) = 0 + codes.length + 4 by omega, add_mod_right]
      omega
    · rw [ih hcodes' (by omega), show count + (codes.length + 1) = count + 1 + codes.length by omega]

lemma not_isPad_of_code (h : masked_code char ≥ 0) : ¬IsPad char := fun hpad => not_code_of_padding hpad h

variable (input : List Nat)

/-- The characters before the first one that has no value. -/
lemma exists_codes_append : ∃ codes rest, input = codes ++ rest ∧ (∀ char ∈ codes, masked_code char ≥ 0) ∧
      ∀ char ∈ rest.head?, ¬masked_code char ≥ 0 := by
  induction input with
  | nil => exact ⟨[], [], rfl, by simp, by simp⟩
  | cons char input ih =>
    by_cases hcode : masked_code char ≥ 0
    · obtain ⟨codes, rest, rfl, hcodes, hrest⟩ := ih
      exact ⟨char :: codes, rest, rfl, forall_mem_cons.mpr ⟨hcode, hcodes⟩, hrest⟩
    · exact ⟨[], char :: input, rfl, by simp, by simpa using hcode⟩

/-- The padding is not found before the first character that has no value. -/
lemma le_trim_padding_chars (hcodes : ∀ char ∈ codes, masked_code char ≥ 0) (rest : List Nat) :
    codes.length ≤ trim_padding_chars (codes ++ rest) := by
  obtain hend | ⟨before, pad, after, heq, hpad, hlen⟩ := trim_padding_chars_cases (codes ++ rest)
  · rw [hend, length_append]
    omega
  by_contra hlt
  have hget : (codes ++ rest)[before.length]? = some pad := by rw [heq]; simp
  rw [getElem?_append_left (by omega)] at hget
  exact not_isPad_of_code (hcodes pad (mem_of_getElem? hget)) hpad

lemma trim_padding_chars_le : trim_padding_chars input ≤ input.length := by
  obtain hend | ⟨before, pad, after, heq, -, hlen⟩ := trim_padding_chars_cases input
  · exact le_of_eq hend
  · rw [hlen, heq, length_append]
    omega

lemma decoded_length_eq (state : Int) : decoded_length input state =
      (state_characters state + trim_padding_chars input) / 4 * 3 +
        if trim_padding_chars input < input.length then (state_characters state + trim_padding_chars input) % 4 - 1
        else 0 := by
  simp only [decoded_length, and_two_pow_sub_one_eq_mod _ 2, shiftRight_eq_div_pow]
  split_ifs <;> omega

lemma demand_cons_of_pad {pad : Nat} (hpad : IsPad pad) (count : Nat) (rest : List Nat) :
    demand count (pad :: rest) = count - 1 := by
  rw [demand, if_neg (not_code_of_padding hpad)]
  exact if_pos hpad

/-- The buffer is never too short. -/
lemma demand_le_decoded_length {state : Int} (hcnt : state_characters state < 4) :
    demand (state_characters state) input ≤ decoded_length input state := by
  obtain ⟨codes, rest, rfl, hcodes, hrest⟩ := exists_codes_append input
  have hle := le_trim_padding_chars hcodes rest
  have htrim := trim_padding_chars_le (codes ++ rest)
  rw [demand_append hcodes hcnt, decoded_length_eq]
  generalize state_characters state = count at *
  cases rest with
  | nil =>
    rw [demand]
    omega
  | cons char rest =>
    by_cases hpad : IsPad char
    · rw [demand_cons_of_pad hpad]
      -- A last character that begins a padding is found, so that otherwise there are two characters more.
      have hfound : trim_padding_chars (codes ++ char :: rest) < (codes ++ char :: rest).length ∨
          codes.length + 2 ≤ trim_padding_chars (codes ++ char :: rest) := by
        cases rest with
        | nil => exact .inl (trim_padding_chars_lt hpad codes)
        | cons next rest =>
          simp only [length_append, length_cons] at htrim ⊢
          omega
      split_ifs <;> omega
    · have h0 : demand ((count + codes.length) % 4) (char :: rest) = 0 := by
        rw [demand, if_neg (hrest char rfl)]
        exact if_neg hpad
      omega

variable {state : DecoderState} {out : List UInt8} {pending input : List Nat}

/-- What is written for a text that is accepted. -/
lemma length_of_run (hpend : pending.length < 4)
    (h : run decode_step (.characters pending) input = some (state, out)) : out.length = demand pending.length input := by
  induction input generalizing pending out with
  | nil =>
    cases h
    rfl
  | cons char input ih =>
    obtain ⟨state', out1, out2, hstep, hrun, rfl⟩ := exists_of_run_cons h
    cases hval : sextet_value char with
    | some value =>
      have hcode : masked_code char ≥ 0 := by
        by_contra hcode
        rw [sextet_value_of_not_code hcode] at hval
        cases hval
      rw [demand, if_pos hcode]
      by_cases hfull : pending.length = 3
      · obtain ⟨a, b, c, rfl⟩ := length_eq_three.mp hfull
        rw [decode_step_full hval] at hstep
        cases hstep
        rw [if_pos hfull, length_append, ih (by decide) hrun]
        rfl
      · rw [decode_step_value hval (by omega)] at hstep
        cases hstep
        rw [if_neg hfull, nil_append, ih (by simp; omega) hrun, length_append]
        rfl
    | none =>
      have hpad : IsPad char := by
        by_contra hpad
        rw [decode_step_no_value hval, if_neg (fun h => hpad (.inl h)), if_neg (fun h => hpad (.inr h))] at hstep
        cases hstep
      rw [decode_step_first_padding hpad] at hstep
      rw [demand_cons_of_pad hpad]
      obtain ⟨a, b, rfl, -, rfl, rfl⟩ | ⟨a, b, c, rfl, -, rfl, rfl⟩ := eq_of_begin_padding hstep
      · obtain ⟨rfl, -⟩ := paddingText_of_run hrun
        rfl
      · obtain ⟨rfl, -⟩ := paddingText_of_run hrun
        rfl

lemma run_codes (hcodes : ∀ char ∈ codes, masked_code char ≥ 0) {pending : List Nat} (hpend : pending.length < 4)
    (h : run decode_step (.characters pending) codes = some (state, out)) : ∃ pending', state = .characters pending' := by
  induction codes generalizing pending out with
  | nil =>
    cases h
    exact ⟨pending, rfl⟩
  | cons char codes ih =>
    have hascii : char ≤ 127 := by
      by_contra hascii
      rw [run_of_not_ascii hascii] at h
      cases h
    have hval := sextet_value_of_code (lt_succ_of_le hascii) (hcodes char (.head _))
    have hcodes' : ∀ char ∈ codes, masked_code char ≥ 0 := fun char hchar => hcodes char (.tail _ hchar)
    obtain ⟨state', out1, out2, hstep, hrun, rfl⟩ := exists_of_run_cons h
    by_cases hfull : pending.length = 3
    · obtain ⟨a, b, c, rfl⟩ := length_eq_three.mp hfull
      rw [decode_step_full hval] at hstep
      cases hstep
      exact ih hcodes' (by decide) hrun
    · rw [decode_step_value hval (by omega)] at hstep
      cases hstep
      exact ih hcodes' (by simp; omega) hrun

/-- What follows the characters of a text that is accepted. -/
lemma exists_pads_of_run (hcode : ¬masked_code char ≥ 0) {pending text : List Nat}
    (h : run decode_step (.characters pending) (char :: text) = some (state, out)) :
    ∃ pad pad' left left', char :: text = pad ++ pad' ∧ PadPrefix pad left ∧ (pad' = [] ∨ PadPrefix pad' left') := by
  obtain ⟨state', out1, out2, hstep, hrun, rfl⟩ := exists_of_run_cons h
  rw [decode_step_no_value (sextet_value_of_not_code hcode)] at hstep
  split_ifs at hstep with hequals hpct
  · subst hequals
    obtain ⟨a, b, rfl, -, rfl, -⟩ | ⟨a, b, c, rfl, -, rfl, -⟩ := eq_of_begin_padding hstep
    · obtain ⟨-, left, -, htext⟩ := paddingText_of_run hrun
      exact ⟨[0x3d], text, 0, left, rfl, .equals, htext.imp_left fun h => h.1⟩
    · obtain ⟨-, left, -, rfl, -⟩ := paddingText_of_run hrun
      exact ⟨[0x3d], [], 0, 0, rfl, .equals, .inl rfl⟩
  · subst hpct
    obtain ⟨a, b, rfl, -, rfl, -⟩ | ⟨a, b, c, rfl, -, rfl, -⟩ := eq_of_begin_padding hstep
    · obtain ⟨-, left, -, ⟨left', htext, -⟩ | ⟨rest, rest', hrest, hrest', rfl⟩⟩ := paddingText_of_run hrun
      · exact ⟨0x25 :: text, [], left', 0, (append_nil _).symm, htext, .inl rfl⟩
      · exact ⟨0x25 :: rest, rest', 0, left, rfl, hrest, .inr hrest'⟩
    · obtain ⟨-, left, -, htext⟩ := paddingText_of_run hrun
      exact ⟨0x25 :: text, [], left, 0, (append_nil _).symm, htext, .inl rfl⟩

/-- The buffer for a text that is accepted has exactly the length that is needed. -/
lemma decoded_length_of_run (hpend : pending.length < 4)
    (h : run decode_step (.characters pending) input = some (state, out)) {number : Int}
    (hnum : state_characters number = pending.length) : decoded_length input number = out.length := by
  obtain ⟨codes, rest, rfl, hcodes, hrest⟩ := exists_codes_append input
  rw [length_of_run hpend h, demand_append hcodes hpend, decoded_length_eq, hnum]
  cases rest with
  | nil =>
    have hle := le_trim_padding_chars hcodes []
    have hge := trim_padding_chars_le (codes ++ [])
    rw [append_nil] at hle hge ⊢
    rw [le_antisymm hge hle, if_neg (lt_irrefl _)]
    rfl
  | cons char rest =>
    have hcode := hrest char rfl
    rw [run_append] at h
    obtain ⟨⟨state1, out1⟩, hrun1, h⟩ := Option.bind_eq_some_iff.mp h
    obtain ⟨pending1, rfl⟩ := run_codes hcodes hpend hrun1
    obtain ⟨⟨state2, out2⟩, hrun2, -⟩ := Option.map_eq_some_iff.mp h
    obtain ⟨pad, pad', left, left', heq, hpad, hpad'⟩ := exists_pads_of_run hcode hrun2
    have htrim : trim_padding_chars (codes ++ char :: rest) = codes.length := by
      rw [heq]
      exact trim_padding_chars_pads (fun char hchar => not_isPad_of_code (hcodes char hchar)) hpad hpad'
    have hisPad : IsPad char := by
      cases hpad <;> cases heq <;> first | exact .inl rfl | exact .inr rfl
    rw [htrim, if_pos (by simp), demand_cons_of_pad hisPad]

end dart.convert.base64
