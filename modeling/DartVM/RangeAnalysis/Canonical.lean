import DartVM.RangeAnalysis.Graph
import DartVM.RangeAnalysis.Valuation

namespace dart.range_analysis
open int64
variable {δ β : Type} [DecidableEq δ] [DecidableEq β]

/-- A graph in SSA form. Definitions are numbered in an order that agrees with dominance;
only the inputs of a phi may come after it. The range of any other definition mentions
definitions before it and what the ranges of such definitions mention. -/
structure Graph.WellFormed (graph : Graph δ β) : Prop where
  smi_constants : ∀ {defn c}, graph.smi_constant defn = some c → graph.IsSmi c.toInt
  constraints : ∀ {defn value}, graph.kind defn = .constraint value → graph.order value < graph.order defn
  operands : ∀ {defn op is_truncating left right}, graph.kind defn = .binary_smi_op op is_truncating left right →
    graph.order left < graph.order defn ∧ graph.order right < graph.order defn
  redefined : ∀ {defn value}, graph.redefined_value defn = some value → graph.order value < graph.order defn
  dominance : ∀ {a b}, graph.dominates (graph.block a) (graph.block b) = true → graph.block a ≠ graph.block b →
    graph.order a < graph.order b
  symbols : ∀ {defn range symbol}, graph.kind defn ≠ .phi → graph.range defn = some range → range.Mentions symbol →
    graph.order symbol < graph.order defn ∨
      ∃ input range', graph.order input < graph.order defn ∧ graph.range input = some range' ∧ range'.Mentions symbol
  phis : ∀ {phi range}, graph.kind phi = .phi → graph.range phi = some range → ∃ min max,
    graph.ensure_acyclic_symbol (graph.block phi) min (.constant (graph.min_constant .smi)) = .ok range.min ∧
      graph.ensure_acyclic_symbol (graph.block phi) max (.constant (graph.max_constant .smi)) = .ok range.max

/-- The value of an operation on small integers with this mathematical result. Operations
that do not truncate deoptimize on overflow, the others keep the lower bits. -/
def Definitions.smi_result (defs : Definitions δ) (is_truncating : Bool) (result : Int) : Int :=
  if is_truncating then result.bmod (2 ^ (defs.kSmiBits + 1)) else result

/-- Values of the definitions in an execution, each within its range. -/
structure Environment (graph : Graph δ β) where
  value : δ → Int
  constant : ∀ defn c, graph.smi_constant defn = some c → value defn = c.toInt
  within : ∀ defn range, graph.range defn = some range → graph.Contains value range (value defn)
  constraint : ∀ defn input, graph.kind defn = .constraint input → value defn = value input
  add : ∀ defn is_truncating left right, graph.kind defn = .binary_smi_op .kADD is_truncating left right →
    value defn = graph.smi_result is_truncating (value left + value right)
  sub : ∀ defn is_truncating left right, graph.kind defn = .binary_smi_op .kSUB is_truncating left right →
    value defn = graph.smi_result is_truncating (value left - value right)
  redefined : ∀ defn input, graph.redefined_value defn = some input → value defn = value input
  equals : ∀ a b, graph.equals a b = true → value a = value b

/-- No truncating addition or subtraction of a constant wraps around. -/
structure Environment.Exact {graph : Graph δ β} (env : Environment graph) : Prop where
  add : ∀ {defn left right}, graph.kind defn = .binary_smi_op .kADD true left right →
    graph.smi_constant left ≠ none ∨ graph.smi_constant right ≠ none →
    env.value defn = env.value left + env.value right
  sub : ∀ {defn left right}, graph.kind defn = .binary_smi_op .kSUB true left right →
    graph.smi_constant right ≠ none → env.value defn = env.value left - env.value right

namespace Graph
variable {graph : Graph δ β} {a : RangeBoundary δ} {value : δ → Int} {symbol symbol' : δ} {offset rhs : Int64}

omit [DecidableEq δ] in
lemma dominates_phi_iff {a phi_block : β} :
    graph.dominates_phi a phi_block = true ↔ graph.dominates a phi_block = true ∧ a ≠ phi_block := by
  simp [dominates_phi]

/-- Symbols that are let through dominate the phi. -/
lemma ensure_acyclic_symbol_symbol {phi_block : β} {limit : Int64} {symbol : δ} {offset : Int64}
    (h : graph.ensure_acyclic_symbol phi_block a (.constant limit) = .ok (.symbol symbol offset)) :
    graph.dominates_phi (graph.block symbol) phi_block = true := by
  cases a with
  | unknown => cases h
  | constant c => cases h
  | symbol candidate candidate_offset =>
    rw [ensure_acyclic_symbol] at h
    split at h
    · rename_i hdom
      cases h
      exact hdom
    · obtain ⟨unwrapped, -, h⟩ := bind_eq_ok_iff.mp h
      split at h
      · rename_i hunwrapped
        rw [Definitions.from_definition] at h
        split at h
        · obtain ⟨_, -, h⟩ := bind_eq_ok_iff.mp h
          cases h
        · obtain ⟨_, -, h⟩ := bind_eq_ok_iff.mp h
          cases h
          exact hunwrapped.2
      · cases h

section
variable (h : graph.WellFormed)
include h

/-- Symbols come before the definitions whose ranges mention them, also in loops. -/
lemma WellFormed.acyclic : graph.Acyclic := by
  intro defn range hrng symbol hment
  induction hn : graph.order defn using Nat.strong_induction_on generalizing defn range with
  | _ n ih =>
    by_cases hphi : graph.kind defn = .phi
    · obtain ⟨min, max, hmin, hmax⟩ := h.phis hphi hrng
      have hdominates : graph.dominates_phi (graph.block symbol) (graph.block defn) = true := by
        obtain ⟨offset, hsym | hsym⟩ := hment
        · rw [hsym] at hmin
          exact ensure_acyclic_symbol_symbol hmin
        · rw [hsym] at hmax
          exact ensure_acyclic_symbol_symbol hmax
      obtain ⟨hdom, hne⟩ := dominates_phi_iff.mp hdominates
      rw [← hn]
      exact h.dominance hdom hne
    · rcases h.symbols hphi hrng hment with hlt | ⟨input, range', hlt, hrng', hment'⟩
      · omega
      · have hinput := ih (graph.order input) (by omega) input range' hrng' hment' rfl
        omega

variable (env : Environment graph)

lemma WellFormed.unwrap_constraint_loop_spec (fuel : Nat) (defn : δ) (hfuel : graph.order defn < fuel) :
    ∃ unwrapped, graph.unwrap_constraint_loop fuel defn = .ok unwrapped ∧ env.value unwrapped = env.value defn := by
  induction fuel generalizing defn with
  | zero => omega
  | succ fuel ih =>
    rw [unwrap_constraint_loop]
    split
    · rename_i value hkind
      have hlt := h.constraints hkind
      obtain ⟨unwrapped, hok, hval⟩ := ih value (by omega)
      exact ⟨unwrapped, hok, hval.trans (env.constraint defn value hkind).symm⟩
    · exact ⟨defn, rfl, rfl⟩

lemma WellFormed.original_definition_loop_spec (fuel : Nat) (defn : δ) (hfuel : graph.order defn < fuel) :
    ∃ original, graph.original_definition_loop fuel defn = .ok original ∧ env.value original = env.value defn ∧
      graph.order original ≤ graph.order defn := by
  induction fuel generalizing defn with
  | zero => omega
  | succ fuel ih =>
    rw [original_definition_loop]
    split
    · rename_i value hval
      have hlt := h.redefined hval
      obtain ⟨original, hok, horiginal, hord⟩ := ih value (by omega)
      exact ⟨original, hok, horiginal.trans (env.redefined defn value hval).symm, by omega⟩
    · exact ⟨defn, rfl, rfl, le_rfl⟩

/-- Boundaries that depend on the same symbol differ by their offsets only. -/
lemma WellFormed.depend_on_same_symbol_spec (a b : RangeBoundary δ) :
    ∃ same, graph.depend_on_same_symbol a b = .ok same ∧ (same = true → ∃ defn defn' offset offset',
      a = .symbol defn offset ∧ b = .symbol defn' offset' ∧ env.value defn = env.value defn') := by
  unfold depend_on_same_symbol
  split
  · rename_i defn offset defn' offset'
    obtain ⟨a', ha, hval⟩ := h.unwrap_constraint_loop_spec env _ defn (Nat.lt_succ_self _)
    obtain ⟨b', hb, hval'⟩ := h.unwrap_constraint_loop_spec env _ defn' (Nat.lt_succ_self _)
    refine ⟨_, by rw [are_equal_definitions, unwrap_constraint, ha, unwrap_constraint, hb]; rfl, ?_⟩
    intro hsame
    refine ⟨defn, defn', offset, offset', rfl, rfl, ?_⟩
    rw [← hval, ← hval']
    rcases Bool.or_eq_true_iff.mp hsame with heq | heq
    · rw [of_decide_eq_true heq]
    · exact env.equals a' b' heq
  · exact ⟨false, rfl, by rintro ⟨⟩⟩

end

/-- A rewritten symbol comes before the one it replaces and stands for the same number. -/
def Rewrite.Faithful (graph : Graph δ β) (value : δ → Int) (symbol : δ) (offset : Int64) : Rewrite δ → Prop
  | .changed symbol' offset' => graph.order symbol' < graph.order symbol ∧
      value symbol' + offset'.toInt = value symbol + offset.toInt
  | _ => True

omit [DecidableEq δ] [DecidableEq β] in
lemma add_offset_spec
    (hord : graph.order symbol' < graph.order symbol) (hval : value symbol = value symbol' + rhs.toInt) :
    ∃ rewrite, add_offset symbol' offset rhs = .ok rewrite ∧ rewrite.Faithful graph value symbol offset := by
  rw [add_offset]
  cases hovf : utils.will_add_overflow offset rhs with
  | true => exact ⟨.overflow, rfl, trivial⟩
  | false =>
    have hfits := utils.will_add_overflow_eq_false_iff.mp hovf
    refine ⟨.changed symbol' (.ofInt (offset.toInt + rhs.toInt)), by rw [hfits.checked_eq]; rfl, hord, ?_⟩
    rw [hfits.toInt_ofInt]
    omega

omit [DecidableEq δ] [DecidableEq β] in
lemma sub_offset_spec
    (hord : graph.order symbol' < graph.order symbol) (hval : value symbol = value symbol' - rhs.toInt) :
    ∃ rewrite, sub_offset symbol' offset rhs = .ok rewrite ∧ rewrite.Faithful graph value symbol offset := by
  rw [sub_offset]
  cases hovf : utils.will_sub_overflow offset rhs with
  | true => exact ⟨.overflow, rfl, trivial⟩
  | false =>
    have hfits := utils.will_sub_overflow_eq_false_iff.mp hovf
    refine ⟨.changed symbol' (.ofInt (offset.toInt - rhs.toInt)), by rw [hfits.checked_eq]; rfl, hord, ?_⟩
    rw [hfits.toInt_ofInt]
    omega

variable (h : graph.WellFormed)
include h
variable (env : Environment graph)

lemma WellFormed.canonicalize_step_spec (hexact : env.Exact) (symbol : δ) (offset : Int64) :
    ∃ rewrite, graph.canonicalize_step symbol offset = .ok rewrite ∧
      rewrite.Faithful graph env.value symbol offset := by
  unfold canonicalize_step
  split
  · rename_i value hkind
    exact ⟨_, rfl, h.constraints hkind, by rw [env.constraint symbol value hkind]⟩
  · rename_i is_truncating left right hkind
    obtain ⟨hl, hr⟩ := h.operands hkind
    have hsum (hconst : graph.smi_constant left ≠ none ∨ graph.smi_constant right ≠ none) :
        env.value symbol = env.value left + env.value right := by
      cases is_truncating with
      | true => exact hexact.add hkind hconst
      | false => exact env.add symbol false left right hkind
    split
    · rename_i rhs hconst
      exact add_offset_spec hl (by rw [hsum (.inr (by simp [hconst])), env.constant right rhs hconst])
    · rename_i rhs _ hconst
      exact add_offset_spec hr (by rw [hsum (.inl (by simp [hconst])), env.constant left rhs hconst, Int.add_comm])
    · exact ⟨.unchanged, rfl, trivial⟩
  · rename_i is_truncating left right hkind
    split
    · rename_i rhs hconst
      have hdiff : env.value symbol = env.value left - env.value right := by
        cases is_truncating with
        | true => exact hexact.sub hkind (by simp [hconst])
        | false => exact env.sub symbol false left right hkind
      exact sub_offset_spec (h.operands hkind).1 (by rw [hdiff, env.constant right rhs hconst])
    · exact ⟨.unchanged, rfl, trivial⟩
  · exact ⟨.unchanged, rfl, trivial⟩

/-- The number a boundary is read as. -/
def Stands (value : δ → Int) : RangeBoundary δ → Int → Prop
  | .unknown, _ => False
  | .symbol defn offset, x => x = value defn + offset.toInt
  | .constant c, x => x = c.toInt

/-- What follows from the last lines of `CanonicalizeBoundary`. -/
lemma WellFormed.from_definition_stands (defn : δ)
    {offset : Int64} (hok : graph.is_valid_offset_for_symbolic_range_boundary offset = true) :
    ∃ boundary, graph.from_definition defn offset = .ok boundary ∧
      Stands env.value boundary (env.value defn + offset.toInt) ∧ graph.height boundary ≤ graph.order defn + 1 := by
  unfold Definitions.from_definition
  cases hconst : graph.smi_constant defn with
  | none =>
    exact ⟨.symbol defn offset, by simp [hok], rfl, le_rfl⟩
  | some c =>
    have hfits := (h.smi_constants hconst).fits_add hok
    refine ⟨.constant (.ofInt (c.toInt + offset.toInt)), ?_, ?_, Nat.zero_le _⟩
    · simp [hfits.checked_eq]
    · rw [env.constant defn c hconst]
      exact hfits.toInt_ofInt.symm

variable (hexact : env.Exact)
include hexact

lemma WellFormed.canonicalize_loop_spec (limit : Int64)
    (fuel : Nat) (symbol : δ) (offset : Int64) (hfuel : graph.order symbol < fuel) :
    ∃ boundary, graph.canonicalize_loop (.constant limit) fuel symbol offset = .ok boundary ∧
      (boundary = .constant limit ∨ Stands env.value boundary (env.value symbol + offset.toInt)) ∧
      graph.height boundary ≤ graph.order symbol + 1 := by
  induction fuel generalizing symbol offset with
  | zero => omega
  | succ fuel ih =>
    obtain ⟨rewrite, hstep, hfaithful⟩ := h.canonicalize_step_spec env hexact symbol offset
    rw [canonicalize_loop, hstep]
    cases rewrite with
    | overflow => exact ⟨.constant limit, rfl, .inl rfl, Nat.zero_le _⟩
    | changed symbol' offset' =>
      obtain ⟨hord, hval⟩ := hfaithful
      obtain ⟨boundary, hok, hstands, hheight⟩ := ih symbol' offset' (by omega)
      rw [hval] at hstands
      exact ⟨boundary, hok, hstands, by omega⟩
    | unchanged =>
      cases hv : graph.is_valid_offset_for_symbolic_range_boundary offset with
      | false => exact ⟨.constant limit, rfl, .inl rfl, Nat.zero_le _⟩
      | true =>
        obtain ⟨boundary, hok, hstands, hheight⟩ := h.from_definition_stands env symbol hv
        exact ⟨boundary, hok, .inr hstands, hheight⟩

lemma WellFormed.canonicalize_boundary_spec (limit : Int64) {x : Int}
    (ha : Stands env.value a x) : ∃ boundary, graph.canonicalize_boundary a (.constant limit) = .ok boundary ∧
    (boundary = .constant limit ∨ Stands env.value boundary x) ∧ graph.height boundary ≤ graph.height a := by
  cases a with
  | unknown => exact ha.elim
  | constant c => exact ⟨.constant c, rfl, .inr ha, le_rfl⟩
  | symbol defn offset =>
    obtain rfl := ha
    exact h.canonicalize_loop_spec env hexact limit _ defn offset (Nat.lt_succ_self _)

/-- What a step along the ends of ranges does: either nothing, or it comes to an earlier
symbol and to a number on the side given by `R`, or it gives up at the limit. -/
structure Canonicalized (graph : Graph δ β) (value : δ → Int) (R : Int → Int → Prop) (limit : Int64)
    (a b : RangeBoundary δ) (changed : Bool) : Prop where
  unchanged : changed = false → b = a
  height_lt : changed = true → graph.height b < graph.height a
  moved : ∀ x, Stands value a x → b = .constant limit ∨ ∃ y, Stands value b y ∧ R x y

lemma WellFormed.canonicalize_end_spec {pick : Range δ → RangeBoundary δ} {R : Int → Int → Prop} (limit : Int64)
    (hment : ∀ range symbol offset, pick range = .symbol symbol offset → range.Mentions symbol)
    (hpick : ∀ {range x}, graph.Contains env.value range x → ∃ y, graph.Denotes env.value (pick range) y ∧ R x y)
    (hrefl : ∀ x, R x x) (hadd : ∀ {x y} (k : Int), R x y → R (x + k) (y + k)) (a : RangeBoundary δ) : ∃ b changed,
    graph.canonicalize_end pick limit a = .ok (b, changed) ∧ graph.Canonicalized env.value R limit a b changed := by
  have hstop : graph.Canonicalized env.value R limit a a false :=
    ⟨fun _ => rfl, by rintro ⟨⟩, fun x hx => .inr ⟨x, hx, hrefl x⟩⟩
  cases a with
  | unknown | constant c => exact ⟨_, _, rfl, hstop⟩
  | symbol defn a_offset =>
    have hlimit : graph.Canonicalized env.value R limit (.symbol defn a_offset) (.constant limit) true :=
      ⟨by rintro ⟨⟩, fun _ => Nat.succ_pos _, fun _ _ => .inl rfl⟩
    unfold canonicalize_end
    dsimp only
    split
    · rename_i symbol offset hsym
      obtain ⟨range, hrng, hend⟩ := Option.map_eq_some_iff.mp hsym
      have hord := h.acyclic defn range hrng symbol (hment range symbol offset hend)
      cases hovf : utils.will_add_overflow offset a_offset with
      | true => exact ⟨_, _, rfl, hlimit⟩
      | false =>
        have hfits := utils.will_add_overflow_eq_false_iff.mp hovf
        rw [hfits.checked_eq, ok_bind]
        cases hok : graph.is_valid_offset_for_symbolic_range_boundary (.ofInt (offset.toInt + a_offset.toInt)) with
        | false => exact ⟨_, _, rfl, hlimit⟩
        | true =>
          obtain ⟨next, hnext, hstands, hheight⟩ := h.from_definition_stands env symbol hok
          obtain ⟨b, hb, hmov, hheight'⟩ := h.canonicalize_boundary_spec env hexact limit hstands
          refine ⟨b, true, ?_, by rintro ⟨⟩, fun _ => ?_, ?_⟩
          · simp only [Bool.not_true, Bool.false_eq_true, if_false, hnext, ok_bind, hb, pure_eq_ok]
          · rw [show graph.height (.symbol defn a_offset) = graph.order defn + 1 from rfl]
            omega
          · intro x hx
            obtain ⟨y, hy, hR⟩ := hpick (env.within defn range hrng)
            rw [hend] at hy
            obtain ⟨-, -, rfl⟩ := hy
            obtain rfl := hx
            refine hmov.imp_right fun hb => ⟨_, hb, ?_⟩
            rw [hfits.toInt_ofInt, ← Int.add_assoc]
            exact hadd _ hR
    · exact ⟨_, _, rfl, hstop⟩

/-- `CanonicalizeMaxBoundary` moves a boundary upward. -/
lemma WellFormed.canonicalize_max_boundary_spec (a : RangeBoundary δ) :
    ∃ b changed, graph.canonicalize_max_boundary a = .ok (b, changed) ∧
      graph.Canonicalized env.value (· ≤ ·) (graph.max_constant .int64) a b changed :=
  h.canonicalize_end_spec env hexact _ (fun _ _ offset hmax => ⟨offset, .inr hmax⟩)
    (fun ⟨_, high, _, hhi, _, hle⟩ => ⟨high, hhi, hle⟩) le_refl (fun k hxy => Int.add_le_add_right hxy k) a

/-- `CanonicalizeMinBoundary` moves a boundary downward. -/
lemma WellFormed.canonicalize_min_boundary_spec (a : RangeBoundary δ) :
    ∃ b changed, graph.canonicalize_min_boundary a = .ok (b, changed) ∧
      graph.Canonicalized env.value (· ≥ ·) (graph.min_constant .int64) a b changed :=
  h.canonicalize_end_spec env hexact _ (fun _ _ offset hmin => ⟨offset, .inl hmin⟩)
    (fun ⟨low, _, hlo, _, hle, _⟩ => ⟨low, hlo, hle⟩) le_refl (fun k hxy => Int.add_le_add_right hxy k) a

end Graph
end dart.range_analysis
