import DartVM.RangeAnalysis.Boundary

namespace dart.range_analysis
open int64 Definitions
variable {δ : Type} {range : Range δ} {a b : Int64} {defn : δ}

namespace Definitions
variable (self : Definitions δ)

def IsSmi (x : Int) : Prop := self.kSmiMin ≤ x ∧ x ≤ self.kSmiMax

/-- The number a boundary stands for when its symbol has a small integer as its value. -/
def Denotes (value : δ → Int) : RangeBoundary δ → Int → Prop
  | .unknown, _ => False
  | .symbol defn offset, x => self.is_valid_offset_for_symbolic_range_boundary offset = true ∧
      self.IsSmi (value defn) ∧ x = value defn + offset.toInt
  | .constant c, x => x = c.toInt

def Contains (value : δ → Int) (range : Range δ) (x : Int) : Prop :=
  ∃ low high, self.Denotes value range.min low ∧ self.Denotes value range.max high ∧ low ≤ x ∧ x ≤ high

lemma kSmiMin_le : -2 ^ 62 ≤ self.kSmiMin := by
  rw [kSmiMin, neg_le_neg_iff]
  exact pow_le_pow_right₀ (by norm_num) self.kSmiBits_le

lemma kSmiMin_neg : self.kSmiMin < 0 := by
  have hpos : (0 : Int) < 2 ^ self.kSmiBits := by positivity
  rw [kSmiMin]
  omega

lemma kSmiMax_eq : self.kSmiMax = -self.kSmiMin - 1 := by
  rw [kSmiMin, kSmiMax, neg_neg]

variable {self} {x : Int} {value : δ → Int}

lemma IsSmi.fits (h : self.IsSmi x) : Fits x := by
  have hmin := self.kSmiMin_le
  have hmax := self.kSmiMax_eq
  obtain ⟨hlo, hhi⟩ := h
  exact ⟨by omega, by omega⟩

lemma isSmi_kSmiMin : self.IsSmi self.kSmiMin := by
  have hneg := self.kSmiMin_neg
  have hmax := self.kSmiMax_eq
  exact ⟨le_rfl, by omega⟩

lemma isSmi_kSmiMax : self.IsSmi self.kSmiMax := by
  have hneg := self.kSmiMin_neg
  have hmax := self.kSmiMax_eq
  exact ⟨by omega, le_rfl⟩

@[simp] lemma toInt_min_constant_smi : (self.min_constant .smi).toInt = self.kSmiMin := isSmi_kSmiMin.fits.toInt_ofInt

@[simp] lemma toInt_max_constant_smi : (self.max_constant .smi).toInt = self.kSmiMax := isSmi_kSmiMax.fits.toInt_ofInt

@[simp] lemma toInt_min_constant_int64 : (self.min_constant .int64).toInt = -2 ^ 63 := Int64.toInt_minValue

@[simp] lemma toInt_max_constant_int64 : (self.max_constant .int64).toInt = 2 ^ 63 - 1 := Int64.toInt_maxValue

/-- With a valid offset, a small integer plus the offset does not wrap around. -/
lemma IsSmi.fits_add (h : self.IsSmi x) {offset : Int64}
    (hoff : self.is_valid_offset_for_symbolic_range_boundary offset = true) : Fits (x + offset.toInt) := by
  obtain ⟨hlo, hhi⟩ := h
  simp only [is_valid_offset_for_symbolic_range_boundary, Bool.not_eq_true', Bool.or_eq_false_iff,
    decide_eq_false_iff_not] at hoff
  exact ⟨by omega, by omega⟩

lemma is_valid_zero : self.is_valid_offset_for_symbolic_range_boundary 0 = true := by
  have hmin := self.kSmiMin_le
  have hmax := self.kSmiMax_eq
  simp only [is_valid_offset_for_symbolic_range_boundary, Int64.toInt_zero, Bool.not_eq_true',
    Bool.or_eq_false_iff, decide_eq_false_iff_not]
  omega

lemma Denotes.fits {boundary : RangeBoundary δ} (h : self.Denotes value boundary x) : Fits x := by
  cases boundary with
  | unknown => exact h.elim
  | symbol defn offset =>
    obtain ⟨hoff, hsmi, rfl⟩ := h
    exact hsmi.fits_add hoff
  | constant c =>
    obtain rfl := h
    exact fits_toInt c

lemma Contains.fits (h : self.Contains value range x) : Fits x := by
  obtain ⟨low, high, hlo, hhi, hle, hle'⟩ := h
  exact hlo.fits.between hhi.fits hle hle'

lemma toInt_clamp_constant (size : RangeSize) (c : Int64) : (self.clamp_constant size c).toInt =
      if c.toInt ≤ (self.min_constant size).toInt then (self.min_constant size).toInt
      else if c.toInt ≥ (self.max_constant size).toInt then (self.max_constant size).toInt else c.toInt := by
  rw [clamp_constant]
  split
  · rfl
  · split <;> rfl

lemma isSmi_clamp_constant (c : Int64) : self.IsSmi (self.clamp_constant .smi c).toInt := by
  have hmin : self.IsSmi self.kSmiMin := isSmi_kSmiMin
  have hmax : self.IsSmi self.kSmiMax := isSmi_kSmiMax
  rw [toInt_clamp_constant, toInt_min_constant_smi, toInt_max_constant_smi]
  split
  · exact hmin
  · split
    · exact hmax
    · exact ⟨by omega, by omega⟩

lemma clamp_constant_int64 (c : Int64) : self.clamp_constant .int64 c = c := by
  obtain ⟨hlo, hhi⟩ := fits_toInt c
  apply Int64.toInt.inj
  rw [toInt_clamp_constant, toInt_min_constant_int64, toInt_max_constant_int64]
  all_goals omega

/-- The ends of the range of a definition need less fuel than the definition itself. -/
lemma Acyclic.height_pick_le (h : self.Acyclic) {pick : Range δ → RangeBoundary δ}
    (hpick : ∀ range symbol offset, pick range = .symbol symbol offset → range.Mentions symbol)
    (hrng : self.range defn = some range) : self.height (pick range) ≤ self.order defn := by
  cases hbnd : pick range with
  | unknown | constant c => exact Nat.zero_le _
  | symbol symbol offset => exact h defn range hrng symbol (hpick range symbol offset hbnd)

end Definitions

lemma add_constants_eq (h : Fits (a.toInt + b.toInt)) : add_constants a b = .ok (.ofInt (a.toInt + b.toInt)) := by
  rw [add_constants, utils.will_add_overflow_eq_false_iff.mpr h, Bool.not_false, check_true, ok_bind, h.checked_eq]

lemma sub_constants_eq (h : Fits (a.toInt - b.toInt)) : sub_constants a b = .ok (.ofInt (a.toInt - b.toInt)) := by
  rw [sub_constants, utils.will_sub_overflow_eq_false_iff.mpr h, Bool.not_false, check_true, ok_bind, h.checked_eq]

namespace Definitions
variable {self : Definitions δ} {boundary : RangeBoundary δ}

/-- The boundaries for which the bounds are defined. -/
def Known (self : Definitions δ) : RangeBoundary δ → Prop
  | .unknown => False
  | .symbol _ offset => self.is_valid_offset_for_symbolic_range_boundary offset = true
  | .constant _ => True

/-- Acyclic ranges with known boundaries. -/
structure Bounded (defs : Definitions δ) : Prop where
  acyclic : defs.Acyclic
  known : ∀ defn range, defs.range defn = some range → defs.Known range.min ∧ defs.Known range.max

/-- A definition may get another range with constant boundaries. -/
lemma Bounded.update [DecidableEq δ] (h : self.Bounded) {range : Option (Range δ)}
    (hrng : ∀ r, range = some r → self.range defn = some r ∨ ∃ low high, r = ⟨.constant low, .constant high⟩) :
    { self with range := Function.update self.range defn range }.Bounded := by
  have hcases (d : δ) (r : Range δ) (hr : Function.update self.range defn range d = some r) :
      self.range d = some r ∨ ∃ low high, r = ⟨.constant low, .constant high⟩ := by
    by_cases hd : d = defn
    · subst hd
      rw [Function.update_self] at hr
      exact hrng r hr
    · rw [Function.update_of_ne hd] at hr
      exact .inl hr
  refine ⟨?_, ?_⟩
  · intro d r hr symbol hsym
    rcases hcases d r hr with hsame | ⟨low, high, rfl⟩
    · exact h.acyclic d r hsame symbol hsym
    obtain ⟨_, hmin | hmax⟩ := hsym
    · cases hmin
    · cases hmax
  · intro d r hr
    rcases hcases d r hr with hsame | ⟨low, high, rfl⟩
    · exact h.known d r hsame
    · exact ⟨trivial, trivial⟩

end Definitions

/-- Values for definitions with acyclic ranges, in agreement with what the analysis knows
about them. -/
structure Valuation (defs : Definitions δ) where
  value : δ → Int
  acyclic : defs.Acyclic
  constant : ∀ defn c, defs.smi_constant defn = some c → value defn = c.toInt
  within : ∀ defn range, defs.range defn = some range → defs.Contains value range (value defn)

namespace Valuation
variable {defs : Definitions δ} {v : Valuation defs} {pick : Range δ → RangeBoundary δ} {limit : Int64}
  {R : Int → Int → Prop}

/-- What `LowerBound` and `UpperBound` have in common. `R c x` says that the constant `c`
is on the right side of `x`. -/
structure Direction (v : Valuation defs) (pick : Range δ → RangeBoundary δ) (limit : Int64)
    (R : Int → Int → Prop) : Prop where
  of_contains : ∀ {range x}, defs.Contains v.value range x → ∃ y, defs.Denotes v.value (pick range) y ∧ R y x
  of_smi : ∀ {x}, defs.IsSmi x → R limit.toInt x
  limit_smi : defs.IsSmi limit.toInt
  clamp : ∀ {c : Int64} {x}, defs.IsSmi x → R c.toInt x → R (defs.clamp_constant .smi c).toInt x
  trans : ∀ {x y z}, R x y → R y z → R x z
  refl : ∀ x, R x x
  add : ∀ {x y} (k : Int), R x y → R (x + k) (y + k)

section
variable (h : Direction v pick limit R)
  (hpick : ∀ range symbol offset, pick range = .symbol symbol offset → range.Mentions symbol)
include h hpick

lemma Direction.bound_spec : ∀ (fuel : Nat) (boundary : RangeBoundary δ) (x : Int), defs.height boundary ≤ fuel →
      defs.Denotes v.value boundary x → ∃ c, defs.bound pick limit fuel boundary = .ok c ∧ R c.toInt x := by
  intro fuel
  induction fuel with
  | zero =>
    intro boundary x hfuel hx
    cases boundary with
    | unknown => exact hx.elim
    | symbol defn offset => exact absurd hfuel (by simp [height])
    | constant c =>
      obtain rfl := hx
      exact ⟨c, by rw [bound], h.refl _⟩
  | succ fuel ih =>
    intro boundary x hfuel hx
    cases boundary with
    | unknown => exact hx.elim
    | constant c =>
      obtain rfl := hx
      exact ⟨c, by rw [bound], h.refl _⟩
    | symbol defn offset =>
      obtain ⟨hoff, hsmi, rfl⟩ := hx
      have hadd {smi : Int64} (hsmi' : defs.IsSmi smi.toInt) (hR : R smi.toInt (v.value defn)) :
          ∃ c, add_constants smi offset = .ok c ∧ R c.toInt (v.value defn + offset.toInt) := by
        have hfits := hsmi'.fits_add hoff
        refine ⟨.ofInt (smi.toInt + offset.toInt), add_constants_eq hfits, ?_⟩
        rw [hfits.toInt_ofInt]
        exact h.add _ hR
      cases hrng : defs.range defn with
      | none =>
        obtain ⟨c, hc, hR⟩ := hadd h.limit_smi (h.of_smi hsmi)
        exact ⟨c, by simp [bound, hrng, hc], hR⟩
      | some range =>
        obtain ⟨y, hy, hyx⟩ := h.of_contains (v.within defn range hrng)
        have hheight := v.acyclic.height_pick_le hpick hrng
        obtain ⟨smi, hbound, hsy⟩ := ih (pick range) y (hheight.trans (Nat.le_of_succ_le_succ hfuel)) hy
        obtain ⟨c, hc, hR⟩ := hadd (defs.isSmi_clamp_constant smi) (h.clamp hsmi (h.trans hsy hyx))
        exact ⟨c, by simp [bound, hrng, hbound, hc], hR⟩

/-- The bound of a definition, whether it has a small integer as its value or not. -/
lemma Direction.bound_definition (defn : δ) :
    ∃ c, defs.bound pick limit (defs.order defn + 1) (.symbol defn 0) = .ok c ∧
      (c.toInt = limit.toInt ∨ ∃ u : Int64, c.toInt = (defs.clamp_constant .smi u).toInt ∧ R u.toInt (v.value defn)) := by
  have hadd {smi : Int64} (hsmi : defs.IsSmi smi.toInt) : add_constants smi 0 = .ok (.ofInt smi.toInt) := by
    have hfits : Fits (smi.toInt + (0 : Int64).toInt) := hsmi.fits_add is_valid_zero
    rw [add_constants_eq hfits, Int64.toInt_zero, Int.add_zero]
  unfold bound
  cases hrng : defs.range defn with
  | none => exact ⟨_, hadd h.limit_smi, .inl h.limit_smi.fits.toInt_ofInt⟩
  | some range =>
    obtain ⟨y, hy, hyx⟩ := h.of_contains (v.within defn range hrng)
    obtain ⟨u, hu, huy⟩ := h.bound_spec hpick _ (pick range) y (v.acyclic.height_pick_le hpick hrng) hy
    have hsmi := defs.isSmi_clamp_constant u
    exact ⟨_, by simp [hu, hadd hsmi], .inr ⟨u, hsmi.fits.toInt_ofInt, h.trans huy hyx⟩⟩

end

lemma lower_direction : Direction v Range.min (defs.min_constant .smi) (· ≤ ·) where
  of_contains := fun ⟨low, _, hlo, _, hle, _⟩ => ⟨low, hlo, hle⟩
  of_smi := fun h => by rw [toInt_min_constant_smi]; exact h.1
  limit_smi := by rw [toInt_min_constant_smi]; exact isSmi_kSmiMin
  clamp := by
    intro c x hx hle
    obtain ⟨hlo, hhi⟩ := hx
    rw [toInt_clamp_constant, toInt_min_constant_smi]
    all_goals omega
  trans := le_trans
  refl := le_refl
  add := fun k h => Int.add_le_add_right h k

lemma upper_direction : Direction v Range.max (defs.max_constant .smi) (· ≥ ·) where
  of_contains := fun ⟨_, high, _, hhi, _, hle⟩ => ⟨high, hhi, hle⟩
  of_smi := fun h => by rw [toInt_max_constant_smi]; exact h.2
  limit_smi := by rw [toInt_max_constant_smi]; exact isSmi_kSmiMax
  clamp := by
    intro c x hx hle
    obtain ⟨hlo, hhi⟩ := hx
    rw [toInt_clamp_constant, toInt_max_constant_smi]
    all_goals omega
  trans := fun hxy hyz => le_trans hyz hxy
  refl := le_refl
  add := fun k h => Int.add_le_add_right h k

variable (v) {boundary : RangeBoundary δ} {x : Int}

lemma lower_bound_spec (h : defs.Denotes v.value boundary x) : ∃ c, defs.lower_bound boundary = .ok c ∧ c.toInt ≤ x :=
  lower_direction.bound_spec (fun _ _ offset hmin => ⟨offset, .inl hmin⟩) _ boundary x le_rfl h

lemma upper_bound_spec (h : defs.Denotes v.value boundary x) : ∃ c, defs.upper_bound boundary = .ok c ∧ x ≤ c.toInt :=
  upper_direction.bound_spec (fun _ _ offset hmax => ⟨offset, .inr hmax⟩) _ boundary x le_rfl h

/-- The constant bounds of a range around a number in it. -/
lemma constant_bounds_spec (h : defs.Contains v.value range x) :
    ∃ low high, defs.constant_min range .int64 = .ok low ∧ defs.constant_max range .int64 = .ok high ∧
      defs.lower_bound range.min = .ok low ∧ defs.upper_bound range.max = .ok high ∧
      low.toInt ≤ x ∧ x ≤ high.toInt := by
  obtain ⟨y, z, hy, hz, hyx, hxz⟩ := h
  obtain ⟨low, hlo, hle⟩ := v.lower_bound_spec hy
  obtain ⟨high, hhi, hge⟩ := v.upper_bound_spec hz
  refine ⟨low, high, ?_, ?_, hlo, hhi, hle.trans hyx, hxz.trans hge⟩
  · rw [constant_min, hlo, ok_bind, clamp_constant_int64, pure_eq_ok]
  · rw [constant_max, hhi, ok_bind, clamp_constant_int64, pure_eq_ok]

end Valuation
end dart.range_analysis
