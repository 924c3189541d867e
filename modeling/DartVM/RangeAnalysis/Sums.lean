import DartVM.RangeAnalysis.Semantics

namespace dart.range_analysis
open int64 utils Definitions
variable {δ : Type} {defs : Definitions δ}

namespace Valuation
variable (v : Valuation defs) {defn : δ} {a b : RangeBoundary δ} {offset : Int64}

lemma from_definition_spec
    (hok : defs.is_valid_offset_for_symbolic_range_boundary offset = true) (hsmi : defs.IsSmi (v.value defn)) :
    ∃ boundary, defs.from_definition defn offset = .ok boundary ∧
      defs.Denotes v.value boundary (v.value defn + offset.toInt) := by
  rw [from_definition]
  cases hconst : defs.smi_constant defn with
  | none => exact ⟨.symbol defn offset, by simp [hok], hok, hsmi, rfl⟩
  | some c =>
    have hfits := hsmi.fits_add hok
    rw [v.constant defn c hconst] at hfits ⊢
    refine ⟨.constant (.ofInt (c.toInt + offset.toInt)), ?_, (hfits.toInt_ofInt).symm⟩
    simp [hfits.checked_eq]

lemma with_offset_spec (hsmi : defs.IsSmi (v.value defn)) : ∃ result, defs.with_offset defn offset =
    .ok result ∧ ∀ boundary, result = some boundary → defs.Denotes v.value boundary (v.value defn + offset.toInt) := by
  rw [with_offset]
  cases hv : defs.is_valid_offset_for_symbolic_range_boundary offset with
  | false => exact ⟨none, rfl, by rintro _ ⟨⟩⟩
  | true =>
    obtain ⟨boundary, hok, hden⟩ := v.from_definition_spec hv hsmi
    refine ⟨some boundary, by rw [hok]; rfl, ?_⟩
    rintro _ ⟨⟩
    exact hden

lemma symbolic_add_constant_spec {offset c : Int64} (hsmi : defs.IsSmi (v.value defn)) :
    ∃ result, defs.symbolic_add_constant defn offset c = .ok result ∧ ∀ boundary, result = some boundary →
        defs.Denotes v.value boundary (v.value defn + offset.toInt + c.toInt) := by
  rw [symbolic_add_constant]
  cases hovf : will_add_overflow offset c with
  | true => exact ⟨none, rfl, by rintro _ ⟨⟩⟩
  | false =>
    have hfits := will_add_overflow_eq_false_iff.mp hovf
    obtain ⟨result, hok, hden⟩ := v.with_offset_spec hsmi
    rw [hfits.toInt_ofInt, ← Int.add_assoc] at hden
    exact ⟨result, by rwa [hfits.checked_eq], hden⟩

lemma symbolic_add_spec {x y : Int} (hx : defs.Denotes v.value a x) (hy : defs.Denotes v.value b y) :
    ∃ result, defs.symbolic_add a b = .ok result ∧
      ∀ boundary, result = some boundary → defs.Denotes v.value boundary (x + y) := by
  cases a with
  | unknown => exact hx.elim
  | symbol defn offset =>
    obtain ⟨-, hsmi, rfl⟩ := hx
    cases b with
    | unknown => exact hy.elim
    | symbol _ _ => exact ⟨none, rfl, by rintro _ ⟨⟩⟩
    | constant c =>
      obtain rfl := hy
      exact v.symbolic_add_constant_spec hsmi
  | constant c =>
    obtain rfl := hx
    cases b with
    | unknown => exact hy.elim
    | symbol defn offset =>
      obtain ⟨-, hsmi, rfl⟩ := hy
      rw [Int.add_comm]
      exact v.symbolic_add_constant_spec hsmi
    | constant d => exact ⟨none, rfl, by rintro _ ⟨⟩⟩

lemma symbolic_sub_spec {x y : Int} (hx : defs.Denotes v.value a x) (hy : defs.Denotes v.value b y) :
    ∃ result, defs.symbolic_sub a b = .ok result ∧
      ∀ boundary, result = some boundary → defs.Denotes v.value boundary (x - y) := by
  cases a with
  | unknown => exact hx.elim
  | constant c => exact ⟨none, rfl, by rintro _ ⟨⟩⟩
  | symbol defn offset =>
    obtain ⟨-, hsmi, rfl⟩ := hx
    cases b with
    | unknown => exact hy.elim
    | symbol _ _ => exact ⟨none, rfl, by rintro _ ⟨⟩⟩
    | constant c =>
      obtain rfl := hy
      rw [symbolic_sub]
      cases hovf : will_sub_overflow offset c with
      | true => exact ⟨none, rfl, by rintro _ ⟨⟩⟩
      | false =>
        have hfits := will_sub_overflow_eq_false_iff.mp hovf
        obtain ⟨result, hok, hden⟩ := v.with_offset_spec hsmi
        rw [hfits.toInt_ofInt, ← Int.add_sub_assoc] at hden
        exact ⟨result, by rwa [hfits.checked_eq], hden⟩

/-- The definition of the left operand has its value, if this is an array length. -/
def IsLeftOperand (left_defn : Option δ) (a : Int) : Prop :=
  ∀ defn, left_defn = some defn → defs.is_array_length defn = true → v.value defn = a ∧ defs.IsSmi a

/-- A function that computes a constant on one side of what a boundary stands for. -/
def Bounds (bound : RangeBoundary δ → Checked Int64) (R : Int → Int → Prop) : Prop :=
  ∀ {boundary x}, defs.Denotes v.value boundary x → ∃ c, bound boundary = .ok c ∧ R c.toInt x

variable {left_defn : Option δ} {left right : RangeBoundary δ} {a b x y : Int}
  {left_op right_op : RangeBoundary δ → Checked Int64} {R S : Int → Int → Prop}

section
variable (hdefn : v.IsLeftOperand left_defn a) (hrefl : ∀ x, R x x) (hx : defs.Denotes v.value left x) (hxa : R x a)
include hdefn hrefl hx hxa

/-- The boundary used for the left operand lies between the boundary of its range and its
value, whichever side of the value this is. -/
lemma left_boundary_spec :
    ∃ used y, defs.left_boundary left_defn left = .ok used ∧ defs.Denotes v.value used y ∧ R y a := by
  unfold left_boundary
  cases left_defn with
  | none => exact ⟨left, x, rfl, hx, hxa⟩
  | some defn =>
    dsimp only
    split
    · rename_i hlen
      obtain ⟨hval, hsmi⟩ := hdefn defn rfl hlen
      obtain ⟨used, hok, hden⟩ := v.from_definition_spec is_valid_zero (hval ▸ hsmi)
      rw [hval, Int64.toInt_zero, Int.add_zero] at hden
      exact ⟨used, a, hok, hden, hrefl a⟩
    · exact ⟨left, x, rfl, hx, hxa⟩

variable (hop : v.Bounds left_op R) (htrans : ∀ {x y z}, R x y → R y z → R x z) (hy : defs.Denotes v.value right y)
include hop htrans hy

/-- One end of a sum, on the same side of the sum as the ends of the operands are of them. -/
lemma add_boundary_spec (hadd : ∀ {x a y b}, R x a → R y b → R (x + y) (a + b)) (hyb : R y b) :
    ∃ result, defs.add_boundary left_op left_defn left right = .ok result ∧
      ∀ boundary, result = some boundary → ∃ z, defs.Denotes v.value boundary z ∧ R z (a + b) := by
  obtain ⟨left', x', hl, hx', hx'a⟩ := v.left_boundary_spec hdefn hrefl hx hxa
  obtain ⟨symbolic, hsymbolic, hden⟩ := v.symbolic_add_spec hx' hy
  rw [add_boundary, hl, ok_bind, hsymbolic]
  cases symbolic with
  | some boundary =>
    refine ⟨some boundary, rfl, ?_⟩
    rintro _ ⟨⟩
    exact ⟨_, hden boundary rfl, hadd hx'a hyb⟩
  | none =>
    obtain ⟨c, hc, hcx⟩ := hop hx
    obtain ⟨d, hd, hdy⟩ := hop hy
    simp only [hc, hd, ok_bind]
    cases hovf : will_add_overflow c d with
    | true => exact ⟨none, rfl, by rintro _ ⟨⟩⟩
    | false =>
      have hfits := will_add_overflow_eq_false_iff.mp hovf
      refine ⟨some (.constant (.ofInt (c.toInt + d.toInt))), by rw [add_constants_eq hfits]; rfl, ?_⟩
      rintro _ ⟨⟩
      refine ⟨c.toInt + d.toInt, (hfits.toInt_ofInt).symm, hadd (htrans hcx hxa) (htrans hdy hyb)⟩

lemma sub_boundary_spec (hop' : v.Bounds right_op S) (htrans' : ∀ {x y z}, S x y → S y z → S x z)
    (hsub : ∀ {x a y b}, R x a → S y b → R (x - y) (a - b)) (hyb : S y b) :
    ∃ result, defs.sub_boundary left_op right_op left_defn left right = .ok result ∧
      ∀ boundary, result = some boundary → ∃ z, defs.Denotes v.value boundary z ∧ R z (a - b) := by
  obtain ⟨left', x', hl, hx', hx'a⟩ := v.left_boundary_spec hdefn hrefl hx hxa
  obtain ⟨symbolic, hsymbolic, hden⟩ := v.symbolic_sub_spec hx' hy
  rw [sub_boundary, hl, ok_bind, hsymbolic]
  cases symbolic with
  | some boundary =>
    refine ⟨some boundary, rfl, ?_⟩
    rintro _ ⟨⟩
    exact ⟨_, hden boundary rfl, hsub hx'a hyb⟩
  | none =>
    obtain ⟨c, hc, hcx⟩ := hop hx
    obtain ⟨d, hd, hdy⟩ := hop' hy
    simp only [hc, hd, ok_bind]
    cases hovf : will_sub_overflow c d with
    | true => exact ⟨none, rfl, by rintro _ ⟨⟩⟩
    | false =>
      have hfits := will_sub_overflow_eq_false_iff.mp hovf
      refine ⟨some (.constant (.ofInt (c.toInt - d.toInt))), by rw [sub_constants_eq hfits]; rfl, ?_⟩
      rintro _ ⟨⟩
      refine ⟨c.toInt - d.toInt, (hfits.toInt_ofInt).symm, hsub (htrans hcx hxa) (htrans' hdy hyb)⟩

end

variable {left_range right_range : Range δ}
  (ha : defs.Contains v.value left_range a) (hb : defs.Contains v.value right_range b)
  (hdefn : v.IsLeftOperand left_defn a)
include ha hb hdefn

lemma add_spec : defs.Admits v.value (defs.add left_range right_range left_defn) (Token.kADD.exact a b) := by
  obtain ⟨x, x', hx, hx', hxa, hax'⟩ := ha
  obtain ⟨y, y', hy, hy', hyb, hby'⟩ := hb
  obtain ⟨min, hmin, hlo⟩ := v.add_boundary_spec hdefn le_refl hx hxa v.lower_bound_spec le_trans hy Int.add_le_add hyb
  obtain ⟨max, hmax, hhi⟩ := v.add_boundary_spec (R := (· ≥ ·)) hdefn le_refl hx' hax' v.upper_bound_spec
    (fun hxy hyz => le_trans hyz hxy) hy' Int.add_le_add hby'
  refine admits_ends ?_ hlo hhi
  rw [add, hmin, hmax]
  cases min <;> cases max <;> rfl

lemma sub_spec : defs.Admits v.value (defs.sub left_range right_range left_defn) (Token.kSUB.exact a b) := by
  obtain ⟨x, x', hx, hx', hxa, hax'⟩ := ha
  obtain ⟨y, y', hy, hy', hyb, hby'⟩ := hb
  obtain ⟨min, hmin, hlo⟩ := v.sub_boundary_spec (S := (· ≥ ·)) hdefn le_refl hx hxa v.lower_bound_spec le_trans hy'
    v.upper_bound_spec (fun hxy hyz => le_trans hyz hxy) Int.sub_le_sub hby'
  obtain ⟨max, hmax, hhi⟩ := v.sub_boundary_spec (R := (· ≥ ·)) hdefn le_refl hx' hax' v.upper_bound_spec
    (fun hxy hyz => le_trans hyz hxy) hy v.lower_bound_spec le_trans Int.sub_le_sub hyb
  refine admits_ends ?_ hlo hhi
  rw [sub, hmin, hmax]
  cases min <;> cases max <;> rfl

end Valuation
end dart.range_analysis
