import DartVM.BigInt.Parse

namespace dart.bigint
open numeral BigIntImpl List

/-- The canonical text of a number: a dash if it is negative, and its digits without a leading
zero, with lower-case letters. -/
structure Canonical (radix : Nat) (v : Int) (text : CodeUnits) (digits : List Nat) : Prop where
  text_eq : text = (if v < 0 then [dash] else []) ++ digits.map to_radix_code_unit
  digits_lt : ∀ d ∈ digits, d < radix
  digits_ne_nil : digits ≠ []
  no_leading_zero : digits.head? = some 0 → digits = [0]
  value_eq : value radix digits = v.natAbs

/-- The parts of a text that is read as a number in the given base: white space, a sign, `0x` for
a base that is not given, the digits, and white space. -/
structure Literal (radix : Option Nat) (source lead sign start digits trail : CodeUnits) (base : Nat) : Prop where
  source_eq : source = lead ++ (sign ++ (start ++ (digits ++ trail)))
  lead_space : lead.all is_space = true
  sign_mem : sign ∈ [[], [43], [45]]
  base_eq : radix = some base ∧ start = [] ∨ radix = none ∧ base = 10 ∧ start = [] ∨
    radix = none ∧ base = 16 ∧ start ∈ [[48, 120], [48, 88]]
  digits_ne_nil : digits ≠ []
  digits_lt : ∀ c ∈ digits, is_alphanumeric c = true ∧ digitValue c < base
  trail_space : trail.all is_space = true

section
variable {radix : Nat} {source lead sign body trail : CodeUnits} {c : Nat}

lemma canonical_int_to_radix_string (hradix : 1 < radix) (v : Int) :
    Canonical radix v (int_to_radix_string v radix) (canonical radix v.natAbs) where
  text_eq := rfl
  digits_lt := fun _ hd => canonical_lt hradix hd
  digits_ne_nil := canonical_ne_nil
  no_leading_zero := by
    intro h
    by_cases h0 : v.natAbs = 0
    · rw [h0]
      rfl
    · rw [head?_eq_some_head canonical_ne_nil] at h
      exact absurd (Option.some.inj h) (canonical_head_ne_zero h0)
  value_eq := value_canonical

/-- The characters for digits are read as these digits. -/
lemma digitValue_to_radix_code_unit {d : Nat} (h : d < 36) :
    is_alphanumeric (to_radix_code_unit d) = true ∧ digitValue (to_radix_code_unit d) = d := by
  revert d
  decide

lemma Canonical.textValue_eq {v : Int} {text : CodeUnits} {digits : List Nat} (hradix : radix ≤ 36)
    (h : Canonical radix v text digits) : textValue radix (digits.map to_radix_code_unit) = v.natAbs := by
  have hdigs : (digits.map to_radix_code_unit).map digitValue = digits := by
    rw [map_map]
    refine (map_congr_left fun d hd => ?_).trans (map_id digits)
    exact (digitValue_to_radix_code_unit ((h.digits_lt d hd).trans_le hradix)).2
  rw [textValue, hdigs, h.value_eq]

/-- A decimal digit is a digit of the decimal system. -/
lemma decimal_spec (h : is_decimal c = true) : is_alphanumeric c = true ∧ digitValue c < 10 := by
  have hrng : 48 ≤ c ∧ c ≤ 57 := by
    simpa only [is_decimal, Bool.and_eq_true, decide_eq_true_eq] using h
  refine ⟨by rw [is_alphanumeric, h]; rfl, ?_⟩
  rw [digitValue, if_pos hrng.2]
  omega

lemma hex_spec (h : is_hex c = true) : is_alphanumeric c = true ∧ digitValue c < 16 := by
  have hlt : c < 128 := by
    simp only [is_hex, is_decimal, Bool.or_eq_true, Bool.and_eq_true, decide_eq_true_eq] at h
    omega
  revert h
  revert c
  decide

/-- The parts of a hexadecimal literal. -/
lemma hex_literal_spec (h : is_hex_literal body = true) :
    ∃ start digits, body = start ++ digits ∧ start ∈ [[48, 120], [48, 88]] ∧ digits ≠ [] ∧ digits.all is_hex = true := by
  unfold is_hex_literal at h
  split at h
  · rename_i x c cs
    rw [Bool.and_eq_true, Bool.or_eq_true, beq_iff_eq, beq_iff_eq] at h
    refine ⟨[48, x], c :: cs, rfl, ?_, cons_ne_nil _ _, h.2⟩
    obtain rfl | rfl := h.1
    · exact (.head _)
    · exact .tail _ (.head _)
  · cases h

/-- One of the groups has matched. -/
lemma groups_cases (sign body : CodeUnits) :
    (groups sign body = ⟨sign, some body, none, none⟩ ∧ is_hex_literal body = true) ∨
    (groups sign body = ⟨sign, none, some body, none⟩ ∧ body.all is_decimal = true) ∨
    groups sign body = ⟨sign, none, none, some body⟩ := by
  rw [groups]
  split
  · rename_i h
    exact .inl ⟨rfl, h⟩
  split
  · rename_i h
    exact .inr (.inl ⟨rfl, h⟩)
  · exact .inr (.inr rfl)

variable (p : Primitives) {z : BigIntImpl}

/-- With a radix, exactly the numerals of this radix are accepted. -/
lemma parse_in_radix_spec (hhi : radix ≤ 36) (sign : CodeUnits)
    (hne : body ≠ []) (hbody : ∀ c ∈ body, is_alphanumeric c = true) (is_negative : Bool) :
    if ∀ c ∈ body, digitValue c < radix then
      ∃ z, parse_in_radix p (groups sign body) radix is_negative = .ok (some z) ∧ z.Valid ∧
        z.value = signed is_negative (textValue radix body)
    else parse_in_radix p (groups sign body) radix is_negative = .ok none := by
  have hradix := parse_radix_spec p hhi hbody is_negative
  have hhex := parse_hex_spec (nil_append body).symm rfl hne hbody is_negative
  generalize hrun : parse_in_radix p (groups sign body) radix is_negative = result
  obtain ⟨hgrps, -⟩ | ⟨hgrps, hdec⟩ | hgrps := groups_cases sign body
  · simp only [hgrps, parse_in_radix, show ((none : Option CodeUnits) <|> none) = none from rfl, ite_self] at hrun
    rwa [← hrun]
  · by_cases hten : radix = 10
    · rw [hten, if_pos fun c hc => (decimal_spec (all_eq_true.mp hdec c hc)).2]
      obtain ⟨z, hz, hok, hval⟩ := parse_decimal_spec p is_negative hdec
      simp only [hgrps, parse_in_radix, if_pos hten, hz] at hrun
      exact ⟨z, hrun.symm, hok, hval⟩
    by_cases hsixteen : radix = 16
    · simp only [hgrps, parse_in_radix, if_neg hten, if_pos hsixteen] at hrun
      rw [← hrun, hsixteen]
      exact hhex
    · simp only [hgrps, parse_in_radix, if_neg hten, if_neg hsixteen] at hrun
      rwa [← hrun]
  · by_cases hsixteen : radix = 16
    · simp only [hgrps, parse_in_radix, ite_self, if_pos hsixteen] at hrun
      rw [← hrun, hsixteen]
      exact hhex
    · simp only [hgrps, parse_in_radix, ite_self, if_neg hsixteen] at hrun
      rwa [← hrun]

/-- Without a radix, decimal and hexadecimal literals are accepted. -/
lemma parse_literal_spec (hne : body ≠ []) {is_negative : Bool}
    (h : parse_literal p (groups sign body) is_negative = .ok (some z)) :
    z.Valid ∧ ∃ start digits base, body = start ++ digits ∧ digits ≠ [] ∧
      (base = 10 ∧ start = [] ∨ base = 16 ∧ start ∈ [[48, 120], [48, 88]]) ∧
      (∀ c ∈ digits, is_alphanumeric c = true ∧ digitValue c < base) ∧
      z.value = signed is_negative (textValue base digits) := by
  obtain ⟨hgrps, hlit⟩ | ⟨hgrps, hdec⟩ | hgrps := groups_cases sign body
  · obtain ⟨start, digits, rfl, hstart, hne, hdigs⟩ := hex_literal_spec hlit
    have hspec (c : Nat) (hc : c ∈ digits) := hex_spec (all_eq_true.mp hdigs c hc)
    have hlen : start.length = 2 := by
      rw [mem_cons, mem_singleton] at hstart
      obtain rfl | rfl := hstart <;> rfl
    have hhex := parse_hex_spec rfl hlen hne (fun c hc => (hspec c hc).1) is_negative
    rw [if_pos fun c hc => (hspec c hc).2] at hhex
    obtain ⟨z', hz', hok, hval⟩ := hhex
    rw [hgrps] at h
    obtain rfl := Option.some.inj (Except.ok.inj (hz'.symm.trans h))
    exact ⟨hok, start, digits, 16, rfl, hne, .inr ⟨rfl, hstart⟩, hspec, hval⟩
  · obtain ⟨z', hz', hok, hval⟩ := parse_decimal_spec p is_negative hdec
    have hrun : parse_literal p (groups sign body) is_negative = .ok (some z') := by
      rw [hgrps]
      simp only [parse_literal, hz']
      rfl
    obtain rfl := Option.some.inj (Except.ok.inj (hrun.symm.trans h))
    exact ⟨hok, [], body, 10, rfl, hne, .inl ⟨rfl, rfl⟩, fun c hc => decimal_spec (all_eq_true.mp hdec c hc), hval⟩
  · rw [hgrps] at h
    cases h

lemma raise_eq_ok {α : Type} {x : Checked α} {a : α} (h : raise x = .ok a) : x = .ok a := by
  cases x with
  | error e => cases h
  | ok b => exact congrArg _ (Except.ok.inj h)

/-- What is accepted is a literal, and the result is its value. -/
lemma try_parse_sound {radix : Option Nat} (h : try_parse p source radix = .ok (some z)) :
    z.Valid ∧ ∃ lead sign start digits trail base, Literal radix source lead sign start digits trail base ∧
      z.value = signed (sign == [dash]) (textValue base digits) := by
  rw [try_parse] at h
  split at h
  · cases h
  cases hmatch : first_match source with
  | none =>
    rw [hmatch] at h
    cases h
  | some m =>
    obtain ⟨lead, sign, body, trail, hnum, rfl⟩ := exists_numeric_of_first_match hmatch
    have hbody : ∀ c ∈ body, is_alphanumeric c = true := all_eq_true.mp hnum.body_alphanumeric
    have hsign : (groups sign body).sign = sign := by
      obtain ⟨hgrps, -⟩ | ⟨hgrps, -⟩ | hgrps := groups_cases sign body <;> rw [hgrps]
    rw [hmatch] at h
    dsimp only at h
    rw [hsign] at h
    cases radix with
    | none =>
      obtain ⟨hok, start, digits, base, hsplit, hne, hbase, hdigs, hval⟩ :=
        parse_literal_spec p hnum.body_ne_nil (raise_eq_ok h)
      refine ⟨hok, lead, sign, start, digits, trail, base, ⟨?_, hnum.lead_space, hnum.sign_mem, ?_, hne,
        hdigs, hnum.trail_space⟩, hval⟩
      · rw [hnum.source_eq, hsplit, append_assoc]
      · obtain hbase | hbase := hbase
        · exact .inr (.inl ⟨rfl, hbase⟩)
        · exact .inr (.inr ⟨rfl, hbase⟩)
    | some radix =>
      dsimp only at h
      split at h
      · cases h
      have hspec := parse_in_radix_spec p (show radix ≤ 36 by omega) sign hnum.body_ne_nil hbody (sign == [dash])
      by_cases hall : ∀ c ∈ body, digitValue c < radix
      · rw [if_pos hall] at hspec
        obtain ⟨z', hz', hok, hval⟩ := hspec
        obtain rfl := Option.some.inj (Except.ok.inj (hz'.symm.trans (raise_eq_ok h)))
        exact ⟨hok, lead, sign, [], body, trail, radix, ⟨hnum.source_eq, hnum.lead_space, hnum.sign_mem,
          .inl ⟨rfl, rfl⟩, hnum.body_ne_nil, fun c hc => ⟨hbody c hc, hall c hc⟩, hnum.trail_space⟩, hval⟩
      · rw [if_neg hall, raise_eq_ok h] at hspec
        cases hspec

end

variable {radix : Nat} {x : BigIntImpl} {text : CodeUnits} {digits : List Nat} {v : Int}

/-- The canonical text is matched. -/
lemma Canonical.numeric (hradix : radix ≤ 36) (h : Canonical radix v text digits) :
    Numeric text [] (if v < 0 then [dash] else []) (digits.map to_radix_code_unit) [] where
  source_eq := by rw [h.text_eq, append_nil, nil_append]
  lead_space := rfl
  sign_mem := by
    split
    · exact .tail _ (.tail _ (.head _))
    · exact (.head _)
  body_ne_nil := mt map_eq_nil_iff.mp h.digits_ne_nil
  body_alphanumeric := by
    rw [all_map, all_eq_true]
    exact fun d hd => (digitValue_to_radix_code_unit ((h.digits_lt d hd).trans_le hradix)).1
  trail_space := rfl

/-- Reading a match of the regular expression. -/
lemma Numeric.try_parse_eq {source lead sign body trail : CodeUnits} (h : Numeric source lead sign body trail)
    (p : Primitives) (radix : Nat) :
    try_parse p source none = raise (parse_literal p (groups sign body) (sign == [dash])) ∧ (2 ≤ radix → radix ≤ 36 →
        try_parse p source (some radix) = raise (parse_in_radix p (groups sign body) radix (sign == [dash]))) := by
  have hne : source ≠ [] := by
    rw [h.source_eq]
    exact append_ne_nil_of_right_ne_nil _ (append_ne_nil_of_right_ne_nil _
      (append_ne_nil_of_left_ne_nil h.body_ne_nil _))
  have hsign : (groups sign body).sign = sign := by
    obtain ⟨hgrps, -⟩ | ⟨hgrps, -⟩ | hgrps := groups_cases sign body <;> rw [hgrps]
  refine ⟨?_, fun hlo hhi => ?_⟩
  · simp [try_parse, if_neg hne, h.first_match_eq, hsign]
  · simp only [try_parse, if_neg hne, h.first_match_eq, hsign, if_neg (show ¬(radix < 2 ∨ 36 < radix) by omega)]

/-- The sign that is read is the one that was printed. -/
lemma signed_natAbs_dash (v : Int) : signed ((if v < 0 then [dash] else []) == [dash]) v.natAbs = v := by
  by_cases h : v < 0
  · rw [if_pos h]
    exact (congrArg (signed · v.natAbs) (decide_eq_true h).symm).trans (signed_natAbs v)
  · rw [if_neg h]
    exact (congrArg (signed · v.natAbs) (decide_eq_false h).symm).trans (signed_natAbs v)

lemma Canonical.parse_radix_eq (p : Primitives) (hlo : 2 ≤ radix) (hhi : radix ≤ 36)
    (h : Canonical radix v text digits) : ∃ z, parse p text (some radix) = .ok z ∧ z.Valid ∧ z.value = v := by
  have hnum := h.numeric hhi
  have hspec := parse_in_radix_spec p hhi (if v < 0 then [dash] else []) hnum.body_ne_nil
    (all_eq_true.mp hnum.body_alphanumeric) ((if v < 0 then [dash] else []) == [dash])
  have hdigs : ∀ c ∈ digits.map to_radix_code_unit, digitValue c < radix := by
    intro c hc
    obtain ⟨d, hd, rfl⟩ := mem_map.mp hc
    have hlt := h.digits_lt d hd
    rw [(digitValue_to_radix_code_unit (hlt.trans_le hhi)).2]
    exact hlt
  rw [if_pos hdigs, h.textValue_eq hhi, signed_natAbs_dash] at hspec
  obtain ⟨z, hz, hok, hval⟩ := hspec
  refine ⟨z, ?_, hok, hval⟩
  rw [parse, (hnum.try_parse_eq p radix).2 hlo hhi, hz]
  rfl

/-- Decimal digits are read as a decimal literal. -/
lemma groups_decimal {sign body : CodeUnits} (h : body.all is_decimal = true) :
    groups sign body = ⟨sign, none, some body, none⟩ := by
  have hlit : is_hex_literal body ≠ true := by
    intro hhex
    obtain ⟨start, rest, rfl, hstart, -, -⟩ := hex_literal_spec hhex
    rw [mem_cons, mem_singleton] at hstart
    obtain rfl | rfl := hstart <;> exact absurd (all_eq_true.mp h _ (.tail _ (.head _))) (by decide)
  rw [groups, if_neg hlit, if_pos h]

lemma decimal_code_unit {d : Nat} (h : d < 10) : is_decimal (to_radix_code_unit d) = true := by
  revert d
  decide

lemma Canonical.parse_decimal_eq (p : Primitives) (h : Canonical 10 v text digits) :
    ∃ z, parse p text none = .ok z ∧ z.Valid ∧ z.value = v := by
  have hnum := h.numeric (by norm_num)
  have hdec : (digits.map to_radix_code_unit).all is_decimal = true := by
    rw [all_map, all_eq_true]
    exact fun d hd => decimal_code_unit (h.digits_lt d hd)
  obtain ⟨z, hz, hok, hval⟩ := parse_decimal_spec p ((if v < 0 then [dash] else []) == [dash]) hdec
  rw [h.textValue_eq (by norm_num), signed_natAbs_dash] at hval
  refine ⟨z, ?_, hok, hval⟩
  rw [parse, (hnum.try_parse_eq p 10).1, groups_decimal hdec]
  simp only [parse_literal, hz]
  rfl

/-- Printing and parsing are inverse to each other in every radix, what is printed is canonical,
and what is accepted is read as the value of its digits. -/
theorem text_round_trip (p : Primitives) : (∀ x : BigIntImpl, x.Valid → ∀ radix, 2 ≤ radix → radix ≤ 36 →
      ∃ text digits y, x.to_radix_string p radix = .ok text ∧ Canonical radix x.value text digits ∧
        parse p text (some radix) = .ok y ∧ y.Valid ∧ equals y x = .ok true) ∧ (∀ x : BigIntImpl, x.Valid →
      ∃ text digits y, x.to_string p = .ok text ∧ Canonical 10 x.value text digits ∧
        parse p text none = .ok y ∧ y.Valid ∧ equals y x = .ok true) ∧
    (∀ source radix z, try_parse p source radix = .ok (some z) →
      z.Valid ∧ ∃ lead sign start digits trail base, Literal radix source lead sign start digits trail base ∧
        z.value = signed (sign == [dash]) (textValue base digits)) := by
  refine ⟨fun x hx radix hlo hhi => ?_, fun x hx => ?_, fun source radix z h => try_parse_sound p h⟩
  · have hcanon := canonical_int_to_radix_string (show 1 < radix by omega) x.value
    obtain ⟨y, hy, hok, hval⟩ := hcanon.parse_radix_eq p hlo hhi
    refine ⟨_, _, y, to_radix_string_spec p hx hlo hhi, hcanon, hy, hok, ?_⟩
    rw [equals_spec hok hx, decide_eq_true hval]
  · have hcanon := canonical_int_to_radix_string (show 1 < 10 by norm_num) x.value
    obtain ⟨y, hy, hok, hval⟩ := hcanon.parse_decimal_eq p
    refine ⟨_, _, y, to_string_spec p hx, hcanon, hy, hok, ?_⟩
    rw [equals_spec hok hx, decide_eq_true hval]

/-- `-(2 ^ 32 + 5)` in the radix 7, and the text ` +0x1F`. -/
theorem text_round_trip_twoDigits :
    (∃ text y, to_radix_string .pure_dart ⟨true, [5, 1], 2⟩ 7 = .ok text ∧ parse .pure_dart text (some 7) = .ok y ∧
      equals y ⟨true, [5, 1], 2⟩ = .ok true) ∧
    ∃ lead sign start digits trail base, Literal none [32, 43, 48, 120, 49, 70] lead sign start digits trail base ∧
      31 = signed (sign == [dash]) (textValue base digits) := by
  obtain ⟨hradix, -, hparse⟩ := text_round_trip .pure_dart
  obtain ⟨text, -, y, htext, -, hy, -, hequals⟩ := hradix ⟨true, [5, 1], 2⟩
    ⟨⟨by decide, by decide, by decide⟩, by decide, by decide⟩ 7 (by decide) (by decide)
  have hlit := hparse [32, 43, 48, 120, 49, 70] none ⟨false, [31, 0], 1⟩ rfl
  exact ⟨⟨text, y, htext, hy, hequals⟩, hlit.2⟩

end dart.bigint
