import DartVM.RangeAnalysis.Arithmetic
import DartVM.RangeAnalysis.Valuation

namespace dart.range_analysis
open int64

/-- The exact result of an operator, if it does not throw. An unsigned shift is defined
on 64-bit words only. -/
def Token.exact (op : Token) (a b : Int) : Option Int :=
  match op with
  | .kADD => some (a + b)
  | .kSUB => some (a - b)
  | .kMUL => some (a * b)
  | .kTRUNCDIV => if b = 0 then none else some (a.tdiv b)
  | .kMOD => if b = 0 then none else some (a % b)
  | .kSHL => if b < 0 then none else some (a * 2 ^ b.toNat)
  | .kSHR => if b < 0 then none else some (a / 2 ^ b.toNat)
  | .kUSHR => if b < 0 then none else some (wrap (a % 2 ^ 64 / 2 ^ b.toNat))
  | .kBIT_AND => some (a.land b)
  | .kBIT_OR => some (a.lor b)
  | .kBIT_XOR => some (a.xor b)
  | .other => none

/-- What an operator computes on 64-bit integers. -/
def Token.eval (op : Token) (a b : Int) : Option Int := (op.exact a b).map wrap

variable {δ : Type} {defs : Definitions δ} {value : δ → Int} {x : Int}

namespace Definitions

lemma contains_constants {low high : Int64} :
    defs.Contains value ⟨.constant low, .constant high⟩ x ↔ low.toInt ≤ x ∧ x ≤ high.toInt := by
  constructor
  · rintro ⟨_, _, rfl, rfl, hle⟩
    exact hle
  · exact fun hle => ⟨_, _, rfl, rfl, hle⟩

lemma contains_full (h : Fits x) : defs.Contains value (defs.full .int64) x := by
  obtain ⟨hlo, hhi⟩ := h
  rw [full, contains_constants, toInt_min_constant_int64, toInt_max_constant_int64]
  exact ⟨hlo, by omega⟩

variable {range : Range δ} {computed : Checked (Range δ)} {m : Int}

lemma Contains.is_sane (h : defs.Contains value range x) : is_sane range = true := by
  obtain ⟨min, max⟩ := range
  obtain ⟨low, high, hlo, hhi, hle, hle'⟩ := h
  cases min with
  | unknown => exact hlo.elim
  | symbol defn offset => cases max <;> first | exact hhi.elim | rfl
  | constant c =>
    cases max with
    | unknown => exact hhi.elim
    | symbol defn offset => rfl
    | constant d =>
      obtain rfl := hlo
      obtain rfl := hhi
      exact decide_eq_true (hle.trans hle')

/-- A computed range that is not empty. If an operator has a result, it is in the range,
unless the range is the full one. -/
def Admits (defs : Definitions δ) (value : δ → Int) (computed : Checked (Range δ)) (exact : Option Int) : Prop :=
  ∃ range, computed = .ok range ∧ (∃ x, defs.Contains value range x) ∧
    ∀ m, exact = some m → defs.Contains value range m ∨ range = defs.full .int64

lemma admits_some (hok : computed = .ok range)
    (h : defs.Contains value range m) : defs.Admits value computed (some m) := by
  refine ⟨range, hok, ⟨m, h⟩, ?_⟩
  rintro _ ⟨⟩
  exact .inl h

lemma admits_full {exact : Option Int} (hok : computed = .ok (defs.full .int64)) : defs.Admits value computed exact :=
  ⟨_, hok, ⟨0, contains_full (by decide)⟩, fun _ _ => .inr rfl⟩

lemma Admits.of_some (h : defs.Admits value computed (some m)) : defs.Admits value computed none := by
  obtain ⟨range, hok, hne, -⟩ := h
  exact ⟨range, hok, hne, by rintro _ ⟨⟩⟩

/-- The two ends of an exact result, of which either may be missing. -/
lemma admits_ends {min max : Option (RangeBoundary δ)} (hok : computed = match min, max with
      | some min, some max => .ok ⟨min, max⟩ | _, _ => .ok (defs.full .int64))
    (hmin : ∀ boundary, min = some boundary → ∃ z, defs.Denotes value boundary z ∧ z ≤ m)
    (hmax : ∀ boundary, max = some boundary → ∃ z, defs.Denotes value boundary z ∧ m ≤ z) :
    defs.Admits value computed (some m) := by
  cases min with
  | none => exact admits_full hok
  | some low =>
    cases max with
    | none => exact admits_full hok
    | some high =>
      obtain ⟨y, hy, hym⟩ := hmin low rfl
      obtain ⟨z, hz, hmz⟩ := hmax high rfl
      exact admits_some hok ⟨y, z, hy, hz, hym, hmz⟩

/-- An exact result in a range has not wrapped around; the full range contains every
result that has. -/
lemma contains_wrap (h : defs.Contains value range m ∨ range = defs.full .int64) :
    defs.Contains value range (wrap m) := by
  rcases h with h | rfl
  · rwa [h.fits.wrap_eq]
  · exact contains_full (fits_wrap m)

end Definitions
end dart.range_analysis
