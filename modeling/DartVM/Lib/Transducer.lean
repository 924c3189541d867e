import Mathlib.Data.List.Basic

namespace dart.transducer
open Option
variable {S A B : Type}

/-- A machine that reads a letter, may write some, and may refuse. -/
abbrev Transducer (S A B : Type) := S → A → Option (S × List B)

/-- The machine reads a word. -/
def run (step : Transducer S A B) : S → List A → Option (S × List B)
  | s, [] => some (s, [])
  | s, a :: as => do
    let (s, out) ← step s a
    let (s, rest) ← run step s as
    some (s, out ++ rest)

variable {step : Transducer S A B} {s s' : S} {out : List B} {a : A} {as : List A}

lemma run_cons_of_step (h : step s a = some (s', out)) (as : List A) :
    run step s (a :: as) = (run step s' as).map fun r => (r.1, out ++ r.2) := by
  simp only [run, h, bind_eq_bind, bind_some]
  cases run step s' as <;> rfl

lemma run_cons_of_refused {s : S} (h : step s a = none) (as : List A) : run step s (a :: as) = none := by
  simp [run, h]

/-- A word that was read, by its first letter. -/
lemma exists_of_run_cons (h : run step s (a :: as) = some (s', out)) :
    ∃ t out1 out2, step s a = some (t, out1) ∧ run step t as = some (s', out2) ∧ out = out1 ++ out2 := by
  cases hstep : step s a with
  | none =>
    rw [run_cons_of_refused hstep] at h
    cases h
  | some r =>
    obtain ⟨t, out1⟩ := r
    rw [run_cons_of_step hstep] at h
    obtain ⟨⟨t', out2⟩, hrun, heq⟩ := Option.map_eq_some_iff.mp h
    obtain ⟨rfl, rfl⟩ : t' = s' ∧ out1 ++ out2 = out := Prod.mk.inj heq
    exact ⟨t, out1, out2, rfl, hrun, rfl⟩

lemma run_append (s : S) (as bs : List A) :
    run step s (as ++ bs) = (run step s as).bind fun r => (run step r.1 bs).map fun q => (q.1, r.2 ++ q.2) := by
  induction as generalizing s with
  | nil =>
    rw [List.nil_append, run, bind_some]
    cases run step s bs <;> rfl
  | cons a as ih =>
    rw [List.cons_append]
    cases h : step s a with
    | none => rw [run_cons_of_refused h, run_cons_of_refused h, bind_none]
    | some r =>
      rw [run_cons_of_step h, run_cons_of_step h, ih]
      cases run step r.1 as with
      | none => rfl
      | some q =>
        simp only [map_some, bind_some, map_map, List.append_assoc]
        rfl

/-- What one letter preserves, a word preserves. -/
lemma run_preserves {P : S → Prop} (hstep : ∀ {s s' : S} {a : A} {out : List B}, step s a = some (s', out) →
    P s → P s') (h : run step s as = some (s', out)) (hs : P s) : P s' := by
  induction as generalizing s out with
  | nil =>
    cases h
    exact hs
  | cons a as ih =>
    obtain ⟨t, out1, out2, hfst, hrest, -⟩ := exists_of_run_cons h
    exact ih hrest (hstep hfst hs)

end dart.transducer
