import DartVM.BigInt.Print

namespace dart.bigint
open numeral loops List

/-- The class `\s` of a regular expression. -/
def is_space (c : Nat) : Bool :=
  (9 ≤ c && c ≤ 13) || c == 32 || c == 0xA0 || c == 0x1680 || (0x2000 ≤ c && c < 0x200B) ||
    (0x2028 ≤ c && c < 0x202A) || c == 0x202F || c == 0x205F || c == 0x3000 || c == 0xFEFF

/-- The class `\d` of a regular expression. -/
def is_decimal (c : Nat) : Bool := 48 ≤ c && c ≤ 57

/-- The class `[a-f0-9]`, not case sensitive. -/
def is_hex (c : Nat) : Bool := is_decimal c || (97 ≤ c && c ≤ 102) || (65 ≤ c && c ≤ 70)

/-- The class `[a-z0-9]`, not case sensitive. -/
def is_alphanumeric (c : Nat) : Bool := is_decimal c || (97 ≤ c && c ≤ 122) || (65 ≤ c && c ≤ 90)

/-- The pattern `0x[a-f0-9]+`, not case sensitive. -/
def is_hex_literal : CodeUnits → Bool
  | 48 :: x :: c :: cs => (x == 120 || x == 88) && (c :: cs).all is_hex
  | _ => false

/-- The groups of a match of `_parseRE` that are used: the sign, and the one of the alternatives
that matches the digits. -/
structure Match where
  sign : CodeUnits
  hex : Option CodeUnits
  decimal : Option CodeUnits
  non_decimal : Option CodeUnits
deriving DecidableEq

/-- `(0x[a-f0-9]+)|(\d+)|([a-z0-9]+)`: the first alternative that matches. -/
def groups (sign body : CodeUnits) : Match :=
  if is_hex_literal body then ⟨sign, some body, none, none⟩
  else if body.all is_decimal then ⟨sign, none, some body, none⟩
  else ⟨sign, none, none, some body⟩

/-- `_parseRE.firstMatch`, for `^\s*([+-]?)((0x[a-f0-9]+)|(\d+)|([a-z0-9]+))\s*$`. No character is
in two of the classes that follow each other, so that every part is as long as possible. -/
def first_match (source : CodeUnits) : Option Match :=
  let (sign, rest) := split_sign (source.dropWhile is_space)
  let body := rest.takeWhile is_alphanumeric
  if body ≠ [] ∧ (rest.dropWhile is_alphanumeric).all is_space then some (groups sign body) else none
where
  split_sign : CodeUnits → CodeUnits × CodeUnits
    | c :: cs => if c = 43 ∨ c = 45 then ([c], cs) else ([], c :: cs)
    | [] => ([], [])

/-- `_codeUnitToRadixValue`. -/
def code_unit_to_radix_value (code_unit : Nat) : Int :=
  if 48 ≤ code_unit ∧ code_unit ≤ 57 then (code_unit : Int) - 48 else ((code_unit ||| 0x20 : Nat) : Int) - 97 + 10

namespace BigIntImpl

/-- What changes in the loop of `_parseDecimal`. -/
structure DecimalState where
  part : Int
  result : BigIntImpl
  digit_in_part_count : Nat

section
variable (p : Primitives)

/-- Reads one more digit. -/
def parse_decimal_step (s : DecimalState) (code_unit : Nat) : Checked DecimalState := do
  let part := s.part * 10 + code_unit - 48
  if s.digit_in_part_count + 1 = 9 then
    return ⟨0, ← add (← mul p s.result one_billion) (← from_int part), 0⟩
  else
    return ⟨part, s.result, s.digit_in_part_count + 1⟩

variable (source : CodeUnits)

/-- `_parseDecimal`. -/
def parse_decimal (is_negative : Bool) : Checked BigIntImpl := do
  -- The first part may have a few leading virtual zeros.
  let digit_in_part_count := 9 - source.length % 9
  let digit_in_part_count := if digit_in_part_count = 9 then 0 else digit_in_part_count
  let s ← source.foldlM (parse_decimal_step p) ⟨0, zero, digit_in_part_count⟩
  if is_negative then neg s.result else return s.result

/-- Reads the next characters of one digit, and returns the position after them. -/
def parse_hex_digit (source : CodeUnits) : Nat → Nat → Int → Checked (Option (Nat × Int))
  | 0, i, digit => .ok (some (i, digit))
  | count + 1, i, digit =>
    match source[i]? with
    | none => .error .out_of_bounds
    | some code_unit =>
      let value := code_unit_to_radix_value code_unit
      if 16 ≤ value then .ok none else parse_hex_digit source count (i + 1) (digit * 16 + value)

/-- The loop `while (i < source.length)`, with one more than `digitIndex`. -/
def parse_hex_loop (source : CodeUnits) : Nat → Nat → Nat → Uint32List → Checked (Option Uint32List)
  | 0, _, _, _ => .error .out_of_fuel
  | fuel + 1, i, digits_left, digits =>
    if i < source.length then do
      match ← parse_hex_digit source (digit_bits / 4) i 0 with
      | none => return none
      | some (i, digit) =>
        match digits_left with
        | 0 => .error .out_of_bounds
        | digit_index + 1 => parse_hex_loop source fuel i digit_index (← digits.write digit_index digit)
    else
      .ok (some digits)

/-- `_parseHex`. -/
def parse_hex (start_pos : Nat) (is_negative : Bool) : Checked (Option BigIntImpl) := do
  let hex_chars_per_digit := digit_bits / 4
  let source_length := source.length - start_pos
  let used := (source_length + hex_chars_per_digit - 1) / hex_chars_per_digit
  let last_digit_length := source_length - (used - 1) * hex_chars_per_digit
  match ← parse_hex_digit source last_digit_length start_pos 0 with
  | none => return none
  | some (i, digit) =>
    let digits ← (new_digits used).write (used - 1) digit
    match ← parse_hex_loop source (source.length + 1) i (used - 1) digits with
    | none => return none
    | some digits =>
      if used = 1 ∧ (← digits.read 0) = 0 then return some zero
      else return some (← make is_negative used digits)

/-- The loop of `_parseRadix`. -/
def parse_radix_loop (p : Primitives) (base : BigIntImpl) (radix : Nat) :
    CodeUnits → BigIntImpl → Checked (Option BigIntImpl)
  | [], result => .ok (some result)
  | code_unit :: rest, result =>
    let value := code_unit_to_radix_value code_unit
    if radix ≤ value then .ok none
    else do parse_radix_loop p base radix rest (← add (← mul p result base) (← from_int value))

/-- `_parseRadix`. -/
def parse_radix (radix : Nat) (is_negative : Bool) : Checked (Option BigIntImpl) := do
  match ← parse_radix_loop p (← from_int radix) radix source zero with
  | none => return none
  | some result => if is_negative then some <$> neg result else return some result

/-- `_tryParse` when the radix is not given. -/
def parse_literal (m : Match) (is_negative : Bool) : Checked (Option BigIntImpl) :=
  match m.decimal, m.hex with
  | some decimal, _ => some <$> parse_decimal p decimal is_negative
  | none, some hex => parse_hex hex 2 is_negative
  | none, none => .ok none

/-- `_tryParse` when the radix is given. -/
def parse_in_radix (m : Match) (radix : Nat) (is_negative : Bool) : Checked (Option BigIntImpl) :=
  match if radix = 10 then m.decimal else none with
  | some decimal => some <$> parse_decimal p decimal is_negative
  | none =>
    match if radix = 16 then m.decimal <|> m.non_decimal else none with
    | some hex => parse_hex hex 0 is_negative
    | none =>
      match m.decimal <|> m.non_decimal <|> m.hex with
      | some non_null => parse_radix p non_null radix is_negative
      | none => .error .assertion

/-- `_tryParse`. -/
def try_parse (radix : Option Nat) : Except Thrown (Option BigIntImpl) :=
  if source = [] then
    .ok none
  else
    match first_match source with
    | none => .ok none
    | some m =>
      let is_negative := m.sign == [dash]
      match radix with
      | none => raise (parse_literal p m is_negative)
      | some radix =>
        if radix < 2 ∨ 36 < radix then .error (.range_error radix 2 36 (some "radix"))
        else raise (parse_in_radix p m radix is_negative)

end

/-- `parse`. -/
def parse (p : Primitives) (source : CodeUnits) (radix : Option Nat) : Except Thrown BigIntImpl := do
  match ← try_parse p source radix with
  | none => .error (.format_exception "Could not parse BigInt" source)
  | some result => return result

end BigIntImpl

section

/-- The value of a digit or a letter. -/
def digitValue (c : Nat) : Nat := if c ≤ 57 then c - 48 else if c ≤ 90 then c - 55 else c - 87

section
variable (radix : Nat)

/-- The positional value of the digits of a text. -/
def textValue (text : CodeUnits) : Nat := value radix (text.map digitValue)

lemma textValue_append_singleton (text : CodeUnits) (c : Nat) :
    textValue radix (text ++ [c]) = textValue radix text * radix + digitValue c := by
  rw [textValue, map_append, map_singleton, value_append_singleton, textValue]

lemma textValue_append (text rest : CodeUnits) :
    textValue radix (text ++ rest) = textValue radix text * radix ^ rest.length + textValue radix rest := by
  rw [textValue, map_append, value_append, length_map, textValue, textValue]

lemma textValue_cons (c : Nat) (text : CodeUnits) :
    textValue radix (c :: text) = digitValue c * radix ^ text.length + textValue radix text := by
  have h := textValue_append radix [c] text
  rwa [show textValue radix [c] = digitValue c by simp [textValue, value], singleton_append] at h

end

lemma textValue_lt {radix : Nat} (hradix : 1 < radix) {text : CodeUnits} (h : ∀ c ∈ text, digitValue c < radix) :
    textValue radix text < radix ^ text.length := by
  rw [textValue, ← length_map]
  refine value_lt hradix fun d hd => ?_
  obtain ⟨c, hc, rfl⟩ := mem_map.mp hd
  exact h c hc

lemma code_unit_to_radix_value_eq {c : Nat} (h : is_alphanumeric c = true) :
    code_unit_to_radix_value c = digitValue c := by
  have hlt : c < 128 := by
    simp only [is_alphanumeric, is_decimal, Bool.or_eq_true, Bool.and_eq_true, decide_eq_true_eq] at h
    omega
  revert h
  revert c
  decide

lemma not_space_of_alphanumeric {c : Nat} (h : is_alphanumeric c = true) : is_space c = false := by
  have hlt : c < 128 := by
    simp only [is_alphanumeric, is_decimal, Bool.or_eq_true, Bool.and_eq_true, decide_eq_true_eq] at h
    omega
  revert h
  revert c
  decide

variable {source lead sign body trail : CodeUnits}

/-- The parts of a string that `_parseRE` matches. -/
structure Numeric (source lead sign body trail : CodeUnits) : Prop where
  source_eq : source = lead ++ (sign ++ (body ++ trail))
  lead_space : lead.all is_space = true
  sign_mem : sign ∈ [[], [43], [45]]
  body_ne_nil : body ≠ []
  body_alphanumeric : body.all is_alphanumeric = true
  trail_space : trail.all is_space = true

lemma Numeric.takeWhile_eq (h : Numeric source lead sign body trail) :
    (body ++ trail).takeWhile is_alphanumeric = body ∧ (body ++ trail).dropWhile is_alphanumeric = trail := by
  have hbody : ∀ c ∈ body, is_alphanumeric c = true := all_eq_true.mp h.body_alphanumeric
  rw [takeWhile_append_of_pos hbody, dropWhile_append_of_pos hbody]
  cases htrail : trail with
  | nil => exact ⟨append_nil body, rfl⟩
  | cons c cs =>
    have hspace : is_space c = true := all_eq_true.mp h.trail_space c (by rw [htrail]; exact (.head _))
    have hnot : is_alphanumeric c ≠ true := fun hc => by
      rw [not_space_of_alphanumeric hc] at hspace
      cases hspace
    rw [takeWhile_cons_of_neg hnot, dropWhile_cons_of_neg hnot, append_nil]
    exact ⟨rfl, rfl⟩

/-- The regular expression matches every such string. -/
lemma Numeric.first_match_eq (h : Numeric source lead sign body trail) :
    first_match source = some (groups sign body) := by
  obtain ⟨htake, hdrop⟩ := h.takeWhile_eq
  have hsplit : first_match.split_sign (source.dropWhile is_space) = (sign, body ++ trail) := by
    rw [h.source_eq, dropWhile_append_of_pos (all_eq_true.mp h.lead_space)]
    have hsign := h.sign_mem
    rw [mem_cons, mem_cons, mem_singleton] at hsign
    obtain rfl | rfl | rfl := hsign
    · obtain ⟨c, cs, hbody⟩ := exists_cons_of_ne_nil h.body_ne_nil
      have hc : is_alphanumeric c = true := all_eq_true.mp h.body_alphanumeric c (by rw [hbody]; exact (.head _))
      have hnot : is_space c ≠ true := by rw [not_space_of_alphanumeric hc]; decide
      have hsign : ¬(c = 43 ∨ c = 45) := by
        rintro (rfl | rfl) <;> exact absurd hc (by decide)
      rw [hbody, nil_append, cons_append, dropWhile_cons_of_neg hnot, first_match.split_sign, if_neg hsign]
    · rw [singleton_append, dropWhile_cons_of_neg (by decide), first_match.split_sign, if_pos (.inl rfl)]
    · rw [singleton_append, dropWhile_cons_of_neg (by decide), first_match.split_sign, if_pos (.inr rfl)]
  rw [first_match, hsplit]
  simp only [htake, hdrop]
  rw [if_pos ⟨h.body_ne_nil, h.trail_space⟩]

lemma split_sign_spec (rest : CodeUnits) : (first_match.split_sign rest).1 ++ (first_match.split_sign rest).2 = rest ∧
      (first_match.split_sign rest).1 ∈ [[], [43], [45]] := by
  cases rest with
  | nil => exact ⟨rfl, (.head _)⟩
  | cons c cs =>
    rw [first_match.split_sign]
    split
    · rename_i h
      refine ⟨rfl, ?_⟩
      obtain rfl | rfl := h
      · exact .tail _ (.head _)
      · exact .tail _ (.tail _ (.head _))
    · exact ⟨rfl, (.head _)⟩

/-- The regular expression matches no other string. -/
lemma exists_numeric_of_first_match {m : Match} (h : first_match source = some m) :
    ∃ lead sign body trail, Numeric source lead sign body trail ∧ m = groups sign body := by
  rw [first_match] at h
  have hspec := split_sign_spec (source.dropWhile is_space)
  generalize first_match.split_sign (source.dropWhile is_space) = split at h hspec
  obtain ⟨sign, rest⟩ := split
  dsimp only at h hspec
  split at h
  · rename_i hmatch
    refine ⟨source.takeWhile is_space, sign, rest.takeWhile is_alphanumeric, rest.dropWhile is_alphanumeric, ⟨?_, ?_,
      hspec.2, hmatch.1, ?_, hmatch.2⟩, (Option.some.inj h).symm⟩
    · rw [takeWhile_append_dropWhile, hspec.1, takeWhile_append_dropWhile]
    · exact all_takeWhile
    · exact all_takeWhile
  · cases h

end

namespace BigIntImpl

section
variable {p : Primitives} {s : DecimalState} {length : Nat} {visited : CodeUnits} {base : BigIntImpl} {radix : Nat}

/-- The invariant of the loop over the decimal digits: those before the current part have been
added up, and as many digits as the last parts need are left. -/
structure DecimalState.Reads (s : DecimalState) (length : Nat) (visited : CodeUnits) (sum part : Nat) : Prop where
  valid : s.result.Valid
  result_eq : s.result.value = sum
  part_eq : s.part = part
  part_lt : part < 10 ^ s.digit_in_part_count
  count_lt : s.digit_in_part_count < 9
  value_eq : textValue 10 visited = sum * 10 ^ s.digit_in_part_count + part
  parts : (s.digit_in_part_count + (length - visited.length)) % 9 = 0

lemma parse_decimal_step_spec {sum part c : Nat} (h : s.Reads length visited sum part)
    (hlen : visited.length < length) (hc : is_decimal c = true) :
    ∃ s' sum' part', parse_decimal_step p s c = .ok s' ∧ s'.Reads length (visited ++ [c]) sum' part' := by
  have hrng : 48 ≤ c ∧ c ≤ 57 := by
    simpa only [is_decimal, Bool.and_eq_true, decide_eq_true_eq] using hc
  have hdig : digitValue c = c - 48 := if_pos hrng.2
  have hpart : s.part * 10 + c - 48 = (part * 10 + digitValue c : Nat) := by
    rw [h.part_eq, hdig]
    omega
  have hval : textValue 10 (visited ++ [c]) =
      sum * 10 ^ (s.digit_in_part_count + 1) + (part * 10 + digitValue c) := by
    rw [textValue_append_singleton, h.value_eq, pow_succ]
    ring
  have hlt : part * 10 + digitValue c < 10 ^ (s.digit_in_part_count + 1) := by
    have := h.part_lt
    rw [pow_succ]
    omega
  have hvis : (visited ++ [c]).length = visited.length + 1 := length_append
  have hparts := h.parts
  have hcnt := h.count_lt
  by_cases hfull : s.digit_in_part_count + 1 = 9
  · rw [hfull] at hval hlt
    obtain ⟨m, hm, hmvalid, hmvalue⟩ := mul_spec p h.valid valid_one_billion
    obtain ⟨d, hd, hdok, hdval⟩ := from_int_spec (v := ((part * 10 + digitValue c : Nat) : Int)) (by omega) (by omega)
    obtain ⟨r, hr, hrok, hrval⟩ := add_spec hmvalid hdok
    refine ⟨⟨0, r, 0⟩, sum * 10 ^ 9 + (part * 10 + digitValue c), 0, ?_, hrok, ?_, rfl, Nat.one_pos, by norm_num, ?_,
      ?_⟩
    · simp only [parse_decimal_step, hpart, if_pos hfull, hm, hd, hr, ok_bind, pure_eq_ok]
    · rw [hrval, hmvalue, hdval, h.result_eq, value_one_billion]
      rfl
    · rw [hval, pow_zero, Nat.mul_one, Nat.add_zero]
    · simp only
      omega
  · refine ⟨⟨s.part * 10 + c - 48, s.result, s.digit_in_part_count + 1⟩, sum, part * 10 + digitValue c, ?_, h.valid,
      h.result_eq, hpart, hlt, by simp only; omega, hval, by simp only; omega⟩
    simp only [parse_decimal_step, if_neg hfull, pure_eq_ok]

/-- A decimal numeral is read in parts of nine digits. -/
lemma parse_decimal_spec (p : Primitives) {source : CodeUnits} (is_negative : Bool)
    (hdec : source.all is_decimal = true) : ∃ z, parse_decimal p source is_negative = .ok z ∧ z.Valid ∧
      z.value = signed is_negative (textValue 10 source) := by
  generalize hcnt : (if 9 - source.length % 9 = 9 then 0 else 9 - source.length % 9) = count
  have hinit : DecimalState.Reads ⟨0, zero, count⟩ source.length [] 0 0 := by
    refine ⟨valid_zero, value_zero, rfl, by simp, ?_, by simp [textValue, numeral.value], ?_⟩
    · simp only
      split at hcnt <;> omega
    · simp only [length_nil]
      split at hcnt <;> omega
  obtain ⟨s, hrun, sum, part, hs⟩ := foldlM_prefix_spec (parse_decimal_step p)
    (fun visited s => ∃ sum part, s.Reads source.length visited sum part) source
    (by
      rintro visited c rest s hsrc ⟨sum, part, hs⟩
      have hmem : c ∈ source := by rw [hsrc]; exact mem_append_right _ (.head _)
      have hlen : visited.length < source.length := by rw [hsrc, length_append, length_cons]; omega
      obtain ⟨s', sum', part', hrun, hs'⟩ := parse_decimal_step_spec hs hlen (all_eq_true.mp hdec c hmem)
      exact ⟨s', hrun, sum', part', hs'⟩) ⟨0, zero, count⟩ ⟨0, 0, hinit⟩
  have hparts := hs.parts
  have hlt := hs.count_lt
  have h0 : s.digit_in_part_count = 0 := by omega
  have hpart := hs.part_lt
  have hval := hs.value_eq
  rw [h0] at hpart hval
  have hsum : s.result.value = (textValue 10 source : Nat) := by
    rw [hval, hs.result_eq]
    congr 1
    omega
  simp only [parse_decimal, hcnt, hrun, ok_bind]
  cases is_negative with
  | true =>
    obtain ⟨z, hz, hzok, hzval⟩ := neg_spec hs.valid
    exact ⟨z, hz, hzok, by rw [hzval, hsum]; rfl⟩
  | false => exact ⟨s.result, rfl, hs.valid, hsum⟩

lemma parse_radix_loop_spec (p : Primitives) (hbase : base.Valid) (hval : base.value = radix) (hradix : radix ≤ 36)
    {text : CodeUnits} (htext : ∀ c ∈ text, is_alphanumeric c = true) {result : BigIntImpl} (hres : result.Valid)
    {sum : Nat} (hsum : result.value = sum) : if ∀ c ∈ text, digitValue c < radix then
      ∃ z, parse_radix_loop p base radix text result = .ok (some z) ∧ z.Valid ∧
        z.value = (sum * radix ^ text.length + textValue radix text : Nat)
    else parse_radix_loop p base radix text result = .ok none := by
  induction text generalizing result sum with
  | nil =>
    rw [if_pos (by simp)]
    exact ⟨result, rfl, hres, by simpa [textValue, numeral.value] using hsum⟩
  | cons c text ih =>
    have hc := code_unit_to_radix_value_eq (htext c (.head _))
    by_cases hdig : digitValue c < radix
    · obtain ⟨m, hm, hmvalid, hmvalue⟩ := mul_spec p hres hbase
      obtain ⟨d, hd, hdok, hdval⟩ := from_int_spec (v := (digitValue c : Int)) (by omega) (by omega)
      obtain ⟨r, hr, hrok, hrval⟩ := add_spec hmvalid hdok
      have hnext : r.value = (sum * radix + digitValue c : Nat) := by
        rw [hrval, hmvalue, hdval, hsum, hval]
        rfl
      have hstep : parse_radix_loop p base radix (c :: text) result = parse_radix_loop p base radix text r := by
        simp only [parse_radix_loop, hc, if_neg (show ¬(radix : Int) ≤ digitValue c by omega), hm, hd, hr, ok_bind]
      have hrest := ih (fun a ha => htext a (mem_cons_of_mem c ha)) hrok hnext
      simp only [forall_mem_cons, hdig, true_and, hstep]
      split
      · rename_i hall
        rw [if_pos hall] at hrest
        obtain ⟨z, hz, hzok, hzval⟩ := hrest
        refine ⟨z, hz, hzok, ?_⟩
        rw [hzval, textValue_cons, length_cons, pow_succ]
        congr 1
        ring
      · rename_i hall
        rwa [if_neg hall] at hrest
    · rw [if_neg fun h => hdig (h c (.head _))]
      simp only [parse_radix_loop, hc, if_pos (show (radix : Int) ≤ digitValue c by omega)]

/-- A numeral is read digit by digit. -/
lemma parse_radix_spec (p : Primitives) (hradix : radix ≤ 36) {text : CodeUnits}
    (htext : ∀ c ∈ text, is_alphanumeric c = true) (is_negative : Bool) : if ∀ c ∈ text, digitValue c < radix then
      ∃ z, parse_radix p text radix is_negative = .ok (some z) ∧ z.Valid ∧
        z.value = signed is_negative (textValue radix text) else parse_radix p text radix is_negative = .ok none := by
  obtain ⟨base, hbase, hok, hval⟩ := from_int_spec (v := (radix : Int)) (by omega) (by omega)
  have hloop := parse_radix_loop_spec p hok hval hradix htext valid_zero value_zero
  split
  · rename_i hall
    rw [if_pos hall] at hloop
    obtain ⟨r, hr, hrok, hrval⟩ := hloop
    rw [Nat.zero_mul, Nat.zero_add] at hrval
    cases is_negative with
    | true =>
      obtain ⟨z, hz, hzok, hzval⟩ := neg_spec hrok
      refine ⟨z, ?_, hzok, by rw [hzval, hrval]; rfl⟩
      simp only [parse_radix, hbase, ok_bind, hr, if_true, hz]
      rfl
    | false =>
      refine ⟨r, ?_, hrok, hrval⟩
      simp only [parse_radix, hbase, ok_bind, hr]
      rfl
  · rename_i hall
    rw [if_neg hall] at hloop
    simp only [parse_radix, hbase, ok_bind, hloop, pure_eq_ok]

end

variable {source before chunk rest : CodeUnits}

lemma parse_hex_digit_spec (hsrc : source = before ++ (chunk ++ rest))
    (hchunk : ∀ c ∈ chunk, is_alphanumeric c = true) (digit : Nat) :
    parse_hex_digit source chunk.length before.length digit = if ∀ c ∈ chunk, digitValue c < 16 then
        .ok (some (before.length + chunk.length, (digit * 16 ^ chunk.length + textValue 16 chunk : Nat)))
      else .ok none := by
  induction chunk generalizing before digit with
  | nil =>
    rw [if_pos (by simp)]
    simp [parse_hex_digit, textValue, numeral.value]
  | cons c chunk ih =>
    have hc := code_unit_to_radix_value_eq (hchunk c (.head _))
    have hget : source[before.length]? = some c := by
      rw [hsrc, cons_append, List.getElem?_append_right le_rfl, Nat.sub_self]
      rfl
    by_cases hdig : digitValue c < 16
    · have hrest := ih (show source = before ++ [c] ++ (chunk ++ rest) by rw [hsrc, append_assoc]; rfl)
        (fun a ha => hchunk a (mem_cons_of_mem c ha)) (digit * 16 + digitValue c)
      have hnext : (digit : Int) * 16 + digitValue c = (digit * 16 + digitValue c : Nat) := by
        rfl
      have hval : (digit * 16 + digitValue c) * 16 ^ chunk.length + textValue 16 chunk =
          digit * 16 ^ (chunk.length + 1) + textValue 16 (c :: chunk) := by
        rw [textValue_cons, pow_succ]
        ring
      rw [length_append, length_singleton, hval, Nat.add_right_comm] at hrest
      simp only [length_cons, parse_hex_digit, hget, hc, if_neg (show ¬(16 : Int) ≤ digitValue c by omega),
        forall_mem_cons, hdig, true_and, hnext]
      exact hrest
    · rw [if_neg fun h => hdig (h c (.head _))]
      simp only [length_cons, parse_hex_digit, hget, hc, if_pos (show (16 : Int) ≤ digitValue c by omega)]

/-- The next digit comes from the characters of a part of the text. -/
lemma exists_hex_chunk {n : Nat} (hsrc : source = before ++ rest) (hrest : ∀ c ∈ rest, is_alphanumeric c = true)
    (hn : n ≤ rest.length) : ∃ chunk next, rest = chunk ++ next ∧ chunk.length = n ∧ source = before ++ chunk ++ next ∧
      parse_hex_digit source n before.length 0 = if ∀ c ∈ chunk, digitValue c < 16 then
        .ok (some (before.length + n, (textValue 16 chunk : Nat))) else .ok none := by
  have htake : (rest.take n).length = n := length_take_of_le hn
  have hsplit : source = before ++ (rest.take n ++ rest.drop n) := by rw [take_append_drop, hsrc]
  have h := parse_hex_digit_spec hsplit (fun c hc => hrest c (mem_of_mem_take hc)) 0
  rw [htake, Nat.zero_mul, Nat.zero_add] at h
  exact ⟨_, _, (take_append_drop n rest).symm, htake, by rw [hsplit, append_assoc], h⟩

/-- Each step of the loop reads the next lower digit. -/
lemma parse_hex_loop_spec (fuel : Nat) {left used sum : Nat} {digits : Uint32List} (hsrc : source = before ++ rest)
    (hrest : ∀ c ∈ rest, is_alphanumeric c = true) (hlength : rest.length = 8 * left) (hfuel : left < fuel)
    (hl : left ≤ used) (hused : used ≤ digits.length) (hsum : digits.segment left (used - left) = sum) : if ∀ c ∈ rest,
    digitValue c < 16 then ∃ digits', parse_hex_loop source fuel before.length left digits = .ok (some digits') ∧
    digits'.length = digits.length ∧ digits'.value used = sum * 16 ^ rest.length + textValue 16 rest ∧ ∀ k, used ≤ k →
    digits'.digit k = digits.digit k else parse_hex_loop source fuel before.length left digits = .ok none := by
  induction fuel generalizing before rest left sum digits with
  | zero => exact absurd hfuel (Nat.not_lt_zero _)
  | succ fuel ih =>
    cases left with
    | zero =>
      obtain rfl : rest = [] := length_eq_zero_iff.mp hlength
      have hend : ¬before.length < source.length := by rw [hsrc, append_nil]; exact Nat.lt_irrefl _
      rw [if_pos (by simp), parse_hex_loop, if_neg hend]
      refine ⟨digits, rfl, rfl, ?_, fun _ _ => rfl⟩
      rw [Nat.sub_zero, Uint32List.segment_zero_left] at hsum
      simpa [textValue, numeral.value] using hsum
    | succ index =>
      have hmore : before.length < source.length := by rw [hsrc, length_append]; omega
      obtain ⟨chunk, next, rfl, htake, hsrc', hread⟩ := exists_hex_chunk hsrc hrest (show 8 ≤ rest.length by omega)
      rw [forall_mem_append] at hrest
      rw [length_append, htake] at hlength
      simp only [forall_mem_append]
      by_cases hchunk : ∀ c ∈ chunk, digitValue c < 16
      · rw [if_pos hchunk] at hread
        have hdig : textValue 16 chunk < digit_base := by
          have hlt := textValue_lt (by norm_num) hchunk
          rw [htake] at hlt
          exact hlt
        obtain ⟨digits1, hwr, hlength1, hdig1⟩ := Uint32List.write_eq (show index < digits.length by omega) hdig
        have hstep : parse_hex_loop source (fuel + 1) before.length (index + 1) digits =
            parse_hex_loop source fuel (before ++ chunk).length index digits1 := by
          rw [parse_hex_loop, if_pos hmore, length_append, htake]
          simp only [digit_bits, hread, ok_bind, hwr]
        have hseg : digits1.segment index (used - index) = sum * 16 ^ 8 + textValue 16 chunk := by
          have habove : digits1.segment (index + 1) (used - (index + 1)) = sum := by
            rw [← hsum]
            exact positional.value_congr fun k _ => by rw [hdig1, Function.update_of_ne (by omega)]
          rw [show used - index = used - (index + 1) + 1 by omega, Uint32List.segment_succ', habove, hdig1,
            Function.update_self, Nat.add_comm, Nat.mul_comm]
          rfl
        have hnext := ih hsrc' hrest.2 (by omega) (by omega) (by omega) (by omega) hseg
        rw [hstep]
        by_cases hall : ∀ c ∈ next, digitValue c < 16
        · rw [if_pos ⟨hchunk, hall⟩]
          rw [if_pos hall] at hnext
          obtain ⟨digits', hrun, hlen, hval, hframe⟩ := hnext
          refine ⟨digits', hrun, hlen.trans hlength1, ?_, fun k hk => ?_⟩
          · rw [hval, textValue_append, length_append, htake, pow_add]
            ring
          · rw [hframe k hk, hdig1, Function.update_of_ne (by omega)]
        · rw [if_neg fun h => hall h.2]
          rwa [if_neg hall] at hnext
      · rw [if_neg hchunk] at hread
        rw [if_neg fun h => hchunk h.1, parse_hex_loop, if_pos hmore]
        simp only [digit_bits, hread, ok_bind, pure_eq_ok]

/-- A hexadecimal numeral is read in parts of one digit. -/
lemma parse_hex_spec {text : CodeUnits} {start_pos : Nat} (hsrc : source = before ++ text)
    (hbefore : before.length = start_pos) (hne : text ≠ []) (htext : ∀ c ∈ text, is_alphanumeric c = true)
    (is_negative : Bool) : if ∀ c ∈ text, digitValue c < 16 then
      ∃ z, parse_hex source start_pos is_negative = .ok (some z) ∧ z.Valid ∧
        z.value = signed is_negative (textValue 16 text) else parse_hex source start_pos is_negative = .ok none := by
  have hpos := length_pos_of_ne_nil hne
  have hlength : source.length - start_pos = text.length := by rw [hsrc, length_append]; omega
  generalize hused : (text.length + digit_bits / 4 - 1) / (digit_bits / 4) = used
  generalize hlast : text.length - (used - 1) * (digit_bits / 4) = last
  simp only [digit_bits] at hused hlast
  obtain ⟨chunk, rest, rfl, htake, hsrc', hread⟩ := exists_hex_chunk hsrc htext (show last ≤ text.length by omega)
  rw [forall_mem_append] at htext
  rw [length_append] at hpos hlength hused hlast
  subst hbefore
  simp only [forall_mem_append]
  by_cases hchunk : ∀ c ∈ chunk, digitValue c < 16
  · rw [if_pos hchunk] at hread
    have hdig : textValue 16 chunk < digit_base := by
      refine (textValue_lt (by norm_num) hchunk).trans_le ?_
      rw [htake]
      exact Nat.pow_le_pow_right (by norm_num) (show last ≤ 8 by omega)
    have hnew := length_new_digits used
    obtain ⟨digits1, hwr, hlength1, hdig1⟩ :=
      Uint32List.write_eq (show used - 1 < (new_digits used).length by omega) hdig
    have hseg : digits1.segment (used - 1) (used - (used - 1)) = textValue 16 chunk := by
      rw [show used - (used - 1) = 1 by omega, Uint32List.segment_one, hdig1, Function.update_self]
    have hloop := parse_hex_loop_spec (source.length + 1) hsrc' htext.2 (by omega) (by omega) (by omega) (by omega) hseg
    rw [length_append, htake] at hloop
    by_cases hall : ∀ c ∈ rest, digitValue c < 16
    · rw [if_pos ⟨hchunk, hall⟩]
      rw [if_pos hall, ← textValue_append] at hloop
      obtain ⟨digits', hrun, hlen, hval, hframe⟩ := hloop
      have h0 : digits'.read 0 = .ok (digits'.digit 0) := Uint32List.read_eq (by omega)
      by_cases hsmall : used = 1 ∧ digits'.digit 0 = 0
      · refine ⟨zero, ?_, valid_zero, ?_⟩
        · simp only [parse_hex, hlength, digit_bits, hused, hlast, hread, ok_bind, hwr, hrun, h0, if_pos hsmall,
            pure_eq_ok]
        · rw [hsmall.1, Uint32List.value, positional.value_one, hsmall.2] at hval
          rw [← hval, signed_zero, value_zero]
      · obtain ⟨z, hz, hzok, hzval, -⟩ := make_spec is_negative used digits' (by omega) (by omega) fun hodd => by
          rw [hframe used le_rfl, hdig1, Function.update_of_ne (by omega), digit_new_digits]
        refine ⟨z, ?_, hzok, by rw [hzval, hval]⟩
        simp only [parse_hex, hlength, digit_bits, hused, hlast, hread, ok_bind, hwr, hrun, h0, if_neg hsmall, hz,
          pure_eq_ok]
    · rw [if_neg fun h => hall h.2]
      rw [if_neg hall] at hloop
      simp only [parse_hex, hlength, digit_bits, hused, hlast, hread, ok_bind, hwr, hloop, pure_eq_ok]
  · rw [if_neg hchunk] at hread
    rw [if_neg fun h => hchunk h.1]
    simp only [parse_hex, hlength, digit_bits, hused, hlast, hread, ok_bind, pure_eq_ok]

end BigIntImpl
end dart.bigint
