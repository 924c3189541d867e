import DartVM.RangeAnalysis.Canonical

namespace dart.range_analysis
open int64 Definitions range_analysis.Valuation
variable {δ β : Type} [DecidableEq δ] [DecidableEq β] {graph : Graph δ β}

namespace Graph

/-- Every number that a symbolic boundary stands for is on one side of `i`. -/
def OnSide (value : δ → Int) (R : Int → Int → Prop) (i : Int) (boundary : RangeBoundary δ) : Prop :=
  ∀ defn offset, boundary = .symbol defn offset → R i (value defn + offset.toInt)

omit [DecidableEq δ] [DecidableEq β] in
lemma Canonicalized.onSide {value : δ → Int} {R : Int → Int → Prop} {limit : Int64} {a b : RangeBoundary δ}
    {changed : Bool} (h : graph.Canonicalized value R limit a b changed)
    (htrans : ∀ {x y z}, R x y → R y z → R x z) {i : Int} (ha : OnSide value R i a) : OnSide value R i b := by
  cases hchg : changed with
  | false => rwa [h.unchanged hchg]
  | true =>
    have hlt := h.height_lt hchg
    cases a with
    | unknown | constant c => exact absurd hlt (Nat.not_lt_zero _)
    | symbol defn offset =>
      intro defn' offset' hb
      rcases h.moved _ rfl with hlimit | ⟨y, hy, hR⟩
      · rw [hb] at hlimit
        cases hlimit
      rw [hb] at hy
      obtain rfl := hy
      exact htrans (ha defn offset rfl) hR

/-- The symbolic comparison ends, since every step comes to an earlier symbol, and it is
right, since the index stays below one boundary and the length above the other. -/
lemma WellFormed.symbolic_comparison_spec (h : graph.WellFormed) (env : Environment graph) (hexact : env.Exact) {i l : Int}
    (fuel : Nat) (max length : RangeBoundary δ) (hfuel : graph.height max + graph.height length < fuel)
    (hmax : OnSide env.value (· ≤ ·) i max) (hlen : OnSide env.value (· ≥ ·) l length) :
    ∃ result, graph.symbolic_comparison fuel max length = .ok result ∧ (result = true → i < l) := by
  induction fuel generalizing max length with
  | zero => omega
  | succ fuel ih =>
    obtain ⟨same, hsame, hsyms⟩ := h.depend_on_same_symbol_spec env max length
    rw [symbolic_comparison, hsame, ok_bind]
    cases same with
    | true =>
      refine ⟨_, rfl, fun hlt => ?_⟩
      obtain ⟨defn, defn', offset', offset'', rfl, rfl, hval⟩ := hsyms rfl
      have hle := hmax defn offset' rfl
      have hge := hlen defn' offset'' rfl
      have hoffsets : offset'.toInt < offset''.toInt := of_decide_eq_true hlt
      omega
    | false =>
      obtain ⟨max', changed, hnext, hmov⟩ := h.canonicalize_max_boundary_spec env hexact max
      have hmax' := hmov.onSide le_trans hmax
      rw [if_neg Bool.false_ne_true, hnext, ok_bind]
      cases hchg : changed with
      | true =>
        have hlt := hmov.height_lt hchg
        exact ih max' length (by omega) hmax' hlen
      | false =>
        obtain rfl := hmov.unchanged hchg
        obtain ⟨length', changed', hnext', hmov'⟩ := h.canonicalize_min_boundary_spec env hexact length
        have hlen' := hmov'.onSide (fun hxy hyz => le_trans hyz hxy) hlen
        dsimp only
        rw [if_neg Bool.false_ne_true, hnext', ok_bind]
        cases hchg' : changed' with
        | true =>
          have hlt := hmov'.height_lt hchg'
          exact ih max' length' (by omega) hmax' hlen'
        | false => exact ⟨false, rfl, by rintro ⟨⟩⟩

/-- The values of an execution as a valuation of the symbols. -/
def WellFormed.valuation (h : graph.WellFormed) (env : Environment graph) : Valuation graph.toDefinitions where
  value := env.value
  acyclic := h.acyclic
  constant := env.constant
  within := env.within

/-- The boundary of a definition itself. -/
inductive SelfBoundary (env : Environment graph) (defn : δ) : RangeBoundary δ → Prop where
  | symbol : SelfBoundary env defn (.symbol defn 0)
  | constant {c : Int64} (h : env.value defn = c.toInt) : SelfBoundary env defn (.constant c)

variable {env : Environment graph} {defn : δ} {boundary : RangeBoundary δ}

section
omit [DecidableEq δ] [DecidableEq β]

lemma SelfBoundary.stands (h : SelfBoundary env defn boundary) : Stands env.value boundary (env.value defn) := by
  cases h with
  | symbol => exact (Int.add_zero _).symm
  | constant h => exact h

lemma SelfBoundary.height_le (h : SelfBoundary env defn boundary) : graph.height boundary ≤ graph.order defn + 1 := by
  cases h with
  | symbol => exact le_refl _
  | constant h => exact Nat.zero_le _

lemma from_definition_self (env : Environment graph) (defn : δ) :
    ∃ boundary, graph.from_definition defn 0 = .ok boundary ∧ SelfBoundary env defn boundary := by
  unfold from_definition
  cases hconst : graph.smi_constant defn with
  | none =>
    exact ⟨_, by simp [is_valid_zero], .symbol⟩
  | some c =>
    have hfits : Fits (c.toInt + (0 : Int64).toInt) := by
      rw [Int64.toInt_zero, Int.add_zero]
      exact fits_toInt c
    refine ⟨.constant (.ofInt (c.toInt + (0 : Int64).toInt)), ?_, .constant ?_⟩
    · simp only [hfits.checked_eq, ok_bind, pure_eq_ok]
    · rw [hfits.toInt_ofInt, Int64.toInt_zero, Int.add_zero, env.constant defn c hconst]

end

section
variable (h : graph.WellFormed)
include h

/-- The upper bound of a definition is above its value, unless it is cut off. -/
lemma WellFormed.upper_bound_self (hself : SelfBoundary env defn boundary) :
    ∃ c, graph.upper_bound boundary = .ok c ∧ (c.toInt < graph.kSmiMax → env.value defn ≤ c.toInt) := by
  cases hself with
  | constant heq => exact ⟨_, rfl, fun _ => heq.le⟩
  | symbol =>
    have hdir : Direction (h.valuation env) Range.max _ (· ≥ ·) := upper_direction
    obtain ⟨c, hc, hbound⟩ := hdir.bound_definition (fun _ _ offset hmax => ⟨offset, .inr hmax⟩) defn
    refine ⟨c, hc, fun hlt => ?_⟩
    rw [toInt_max_constant_smi] at hbound
    rcases hbound with hlimit | ⟨u, hclamp, hle⟩
    · omega
    have hle : env.value defn ≤ u.toInt := hle
    rw [toInt_clamp_constant, toInt_max_constant_smi] at hclamp
    all_goals omega

lemma WellFormed.lower_bound_self (hself : SelfBoundary env defn boundary) :
    ∃ c, graph.lower_bound boundary = .ok c ∧ (graph.kSmiMin < c.toInt → c.toInt ≤ env.value defn) := by
  cases hself with
  | constant heq => exact ⟨_, rfl, fun _ => heq.ge⟩
  | symbol =>
    have hdir : Direction (h.valuation env) Range.min _ (· ≤ ·) := lower_direction
    obtain ⟨c, hc, hbound⟩ := hdir.bound_definition (fun _ _ offset hmin => ⟨offset, .inl hmin⟩) defn
    refine ⟨c, hc, fun hlt => ?_⟩
    rw [toInt_min_constant_smi] at hbound
    rcases hbound with hlimit | ⟨u, hclamp, hle⟩
    · omega
    have hle : u.toInt ≤ env.value defn := hle
    rw [toInt_clamp_constant, toInt_min_constant_smi] at hclamp
    all_goals omega

variable (env : Environment graph) {a : RangeBoundary δ} {x : Int}

/-- The comparison of an index that has a range with a length. -/
lemma WellFormed.is_index_below_spec (hexact : env.Exact) {index_defn length : δ}
    {index_range : Range δ} (hidx : graph.Contains env.value index_range (env.value index_defn)) {fuel : Nat}
    (hfuel : graph.order index_defn + graph.order length + 2 < fuel) :
    ∃ result, graph.is_index_below fuel index_defn index_range length = .ok result ∧
      (result = true → 0 ≤ env.value index_defn ∧ env.value index_defn < env.value length) := by
  obtain ⟨low, -, hlowDenotes, -, hlo, -⟩ := hidx
  obtain ⟨low', hlo', hle⟩ := (h.valuation env).lower_bound_spec hlowDenotes
  obtain ⟨max, hmax, hmaxSelf⟩ := from_definition_self env index_defn
  obtain ⟨upper, hupper, hupperLe⟩ := h.upper_bound_self hmaxSelf
  obtain ⟨array_length, hlen, hlengthSelf⟩ := from_definition_self env length
  obtain ⟨lower, hlower, hlowerLe⟩ := h.lower_bound_self hlengthSelf
  obtain ⟨canonical, hcanon, hstands, hheight⟩ :=
    h.canonicalize_boundary_spec env hexact (graph.max_constant .int64) hlengthSelf.stands
  have hno : ∃ result, (pure false : Checked Bool) = .ok result ∧
      (result = true → 0 ≤ env.value index_defn ∧ env.value index_defn < env.value length) := ⟨false, rfl, by rintro ⟨⟩⟩
  rw [is_index_below, constant_min, hlo', ok_bind, pure_eq_ok, ok_bind]
  split
  · exact hno
  rename_i hpos
  have hnn : 0 ≤ env.value index_defn := by
    have hmin := graph.kSmiMin_neg
    rw [toInt_clamp_constant, toInt_min_constant_smi, toInt_max_constant_smi] at hpos
    all_goals omega
  rw [hmax, ok_bind, hupper, ok_bind, hlen, ok_bind, hlower, ok_bind]
  split
  · exact hno
  rename_i hsmi
  simp only [is_smi, Bool.or_eq_true, Bool.not_eq_true', Bool.and_eq_false_iff, decide_eq_false_iff_not, not_or,
    not_not] at hsmi
  split
  · exact ⟨true, rfl, fun _ => ⟨hnn, by omega⟩⟩
  rw [hcanon, ok_bind]
  split
  · exact hno
  rename_i hovf
  have hmaxSide : OnSide env.value (· ≤ ·) (env.value index_defn) max := by
    rintro defn offset rfl
    exact hmaxSelf.stands.le
  have hlengthSide : OnSide env.value (· ≥ ·) (env.value length) canonical := by
    rintro defn offset rfl
    rcases hstands with hlimit | hstands
    · cases hlimit
    · exact hstands.ge
  have hheights := hmaxSelf.height_le
  have hheights' := hlengthSelf.height_le
  obtain ⟨result, hres, hlt⟩ := h.symbolic_comparison_spec env hexact fuel max canonical (by omega) hmaxSide hlengthSide
  exact ⟨result, hres, fun htrue => ⟨hnn, hlt htrue⟩⟩

lemma WellFormed.bound_smi_constant_spec (defn : δ) : ∃ original, graph.original_definition defn = .ok original ∧
      graph.bound_smi_constant defn = .ok (graph.smi_constant original) ∧ env.value original = env.value defn ∧
      graph.order original ≤ graph.order defn := by
  obtain ⟨original, hok, hval, hord⟩ := h.original_definition_loop_spec env _ defn (Nat.lt_succ_self _)
  refine ⟨original, hok, ?_, hval, hord⟩
  rw [bound_smi_constant, original_definition, hok, ok_bind, pure_eq_ok]

/-- A step along the upper ends of ranges moves a boundary upward. -/
lemma WellFormed.max_boundary_upward (hexact : env.Exact) (ha : Stands env.value a x) (hx : Fits x) :
    ∃ b changed y, graph.canonicalize_max_boundary a = .ok (b, changed) ∧ Stands env.value b y ∧ x ≤ y := by
  obtain ⟨b, changed, hok, hmov⟩ := h.canonicalize_max_boundary_spec env hexact a
  rcases hmov.moved x ha with rfl | ⟨y, hy, hle⟩
  · refine ⟨_, changed, _, hok, rfl, ?_⟩
    exact Int.le_sub_one_of_lt hx.2
  · exact ⟨b, changed, y, hok, hy, hle⟩

lemma WellFormed.min_boundary_downward (hexact : env.Exact) (ha : Stands env.value a x) (hx : Fits x) :
    ∃ b changed y, graph.canonicalize_min_boundary a = .ok (b, changed) ∧ Stands env.value b y ∧ y ≤ x := by
  obtain ⟨b, changed, hok, hmov⟩ := h.canonicalize_min_boundary_spec env hexact a
  rcases hmov.moved x ha with rfl | ⟨y, hy, hle⟩
  · refine ⟨_, changed, _, hok, rfl, ?_⟩
    exact hx.1
  · exact ⟨b, changed, y, hok, hy, hle⟩

end

/-- `IsRedundantBasedOnRangeInformation` returns, and a bounds check that it calls redundant never fails, if no
truncating operation that it looks through wraps around. On the way, the boundary above the index only moves upward
and the one below the length only moves downward. -/
theorem WellFormed.redundant_bounds_check (h : graph.WellFormed) (env : Environment graph) (hexact : env.Exact)
    (index length : δ) {fuel : Nat} (hfuel : graph.order index + graph.order length + 2 < fuel) :
    (∃ result, graph.is_redundant_based_on_range_information fuel index length = .ok result ∧
      (result = true → 0 ≤ env.value index ∧ env.value index < env.value length)) ∧
    ∀ a x, Stands env.value a x → Fits x →
      (∃ b changed y, graph.canonicalize_max_boundary a = .ok (b, changed) ∧ Stands env.value b y ∧ x ≤ y) ∧
      (∃ b changed y, graph.canonicalize_min_boundary a = .ok (b, changed) ∧ Stands env.value b y ∧ y ≤ x) ∧
      ∀ limit, ∃ b, graph.canonicalize_boundary a (.constant limit) = .ok b ∧
        (b = .constant limit ∨ Stands env.value b x) := by
  constructor
  · obtain ⟨index', hidx, hindexConstant, hindexValue, hindexOrder⟩ := h.bound_smi_constant_spec env index
    obtain ⟨length', -, hlengthConstant, hlengthValue, -⟩ := h.bound_smi_constant_spec env length
    rw [is_redundant_based_on_range_information, hindexConstant, hlengthConstant]
    have hrest (index_range : Range δ) (hrng : graph.range index = some index_range) :=
      h.is_index_below_spec env hexact (env.within index index_range hrng) hfuel
    cases hi : graph.smi_constant index' with
    | none =>
      cases hrng : graph.range index with
      | none => exact ⟨false, rfl, by rintro ⟨⟩⟩
      | some index_range => exact hrest index_range hrng
    | some i =>
      cases hl : graph.smi_constant length' with
      | some l =>
        refine ⟨_, rfl, fun hlt => ?_⟩
        rw [← hindexValue, ← hlengthValue, env.constant index' i hi, env.constant length' l hl]
        simpa using hlt
      | none =>
        cases hrng : graph.range index with
        | some index_range => exact hrest index_range hrng
        | none =>
          have hmem : graph.Contains env.value ⟨.constant i, .constant i⟩ (env.value index') := by
            rw [env.constant index' i hi]
            exact ⟨_, _, rfl, rfl, le_refl _, le_refl _⟩
          have hfuel' : graph.order index' + graph.order length + 2 < fuel := by omega
          obtain ⟨result, hres, htrue⟩ := h.is_index_below_spec env hexact hmem hfuel'
          rw [hindexValue] at htrue
          exact ⟨result, by simp [hidx, hres], htrue⟩
  · intro a x ha hx
    refine ⟨h.max_boundary_upward env hexact ha hx, h.min_boundary_downward env hexact ha hx, fun limit => ?_⟩
    obtain ⟨b, hok, hstands, -⟩ := h.canonicalize_boundary_spec env hexact limit ha
    exact ⟨b, hok, hstands⟩

/-- The definitions of a function that checks an index up to `x` against the sum `x + 1`. -/
inductive SumDefinition where
  | x
  | one
  | sum
  | index
deriving DecidableEq

def indexBelowSum : Graph SumDefinition Unit where
  kSmiBits := kSmiBits64
  kSmiBits_le := Nat.le_refl kSmiBits64
  smi_constant
    | .one => some 1
    | _ => none
  is_array_length _ := false
  range
    | .index => some ⟨.constant 0, .symbol .x 0⟩
    | _ => none
  order := SumDefinition.ctorIdx
  kind
    | .sum => .binary_smi_op .kADD true .x .one
    | _ => .other
  redefined_value _ := none
  equals _ _ := false
  block _ := ()
  dominates _ _ := true

lemma indexBelowSum_wellFormed : indexBelowSum.WellFormed where
  smi_constants {defn c} h := by
    cases defn <;> cases h
    exact ⟨by decide, by decide⟩
  constraints {defn value} h := by cases defn <;> cases h
  operands {defn op is_truncating left right} h := by
    cases defn <;> cases h
    exact ⟨by decide, by decide⟩
  redefined h := by cases h
  dominance _ h := absurd rfl h
  symbols := by
    rintro defn range symbol - hrng ⟨offset, h | h⟩
    all_goals
      cases defn <;> cases hrng
      cases h
    exact .inl (by decide)
  phis {phi range} h := by cases phi <;> cases h

/-- The sum of a small integer and one, which keeps the lower bits. -/
def execution (x : Int) (hmin : 0 ≤ x) (hmax : x < 2 ^ 62) : Environment indexBelowSum where
  value
    | .x => x
    | .one => 1
    | .sum => (x + 1).bmod (2 ^ 63)
    | .index => 0
  constant defn c h := by
    cases defn <;> cases h
    rfl
  within defn range h := by
    cases defn <;> cases h
    have hsmi : indexBelowSum.IsSmi x := ⟨le_trans (by decide) hmin, Int.le_sub_one_of_lt hmax⟩
    exact ⟨0, x, rfl, ⟨by decide, hsmi, (add_zero x).symm⟩, le_refl (0 : Int), hmin⟩
  constraint defn _ h := by cases defn <;> cases h
  add defn _ _ _ h := by
    cases defn <;> cases h
    rfl
  sub defn _ _ _ h := by cases defn <;> cases h
  redefined _ _ h := by cases h
  equals _ _ h := by cases h

theorem WellFormed.redundant_bounds_check_indexBelowSum : let env := execution 4 (by decide) (by decide)
    indexBelowSum.is_redundant_based_on_range_information 8 .index .sum = .ok true ∧
      0 ≤ env.value .index ∧ env.value .index < env.value .sum := by
  intro env
  have hexact : env.Exact := by
    constructor <;> rintro ⟨⟩ left right ⟨⟩ -
    decide
  have hres : indexBelowSum.is_redundant_based_on_range_information 8 .index .sum = .ok true := by decide +kernel
  obtain ⟨⟨result, hok, htrue⟩, -⟩ := WellFormed.redundant_bounds_check indexBelowSum_wellFormed env hexact .index .sum
    (show indexBelowSum.order .index + indexBelowSum.order .sum + 2 < 8 by decide)
  exact ⟨hres, htrue (Except.ok.inj (hok.symm.trans hres))⟩

/-- The index is not below a sum that wraps around, which `CanonicalizeBoundary` reads as an exact one. -/
theorem redundant_bounds_check_wrappedSum : let env := execution (2 ^ 62 - 1) (by decide) (by decide)
    indexBelowSum.WellFormed ∧ indexBelowSum.is_redundant_based_on_range_information 8 .index .sum = .ok true ∧
      ¬env.value .index < env.value .sum := by
  exact ⟨indexBelowSum_wellFormed, by decide +kernel, by decide +kernel⟩

end Graph
end dart.range_analysis
