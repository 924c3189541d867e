import DartVM.Fault
import Mathlib.Logic.Hydra

namespace dart.worklist
open Multiset
variable {α β γ : Type} {ι : Type} {b : β} {f : Nat × Nat → Checked β}

/-- Induction for loops that replace the first element of a list by finitely many smaller ones,
wherever these are put. -/
lemma worklist_induction {r : α → α → Prop} (hr : WellFounded r) {motive : List α → Prop} (nil : motive [])
    (cons : ∀ a rest, (∀ new l, (∀ b ∈ new, r b a) → l.Perm (new ++ rest) → motive l) → motive (a :: rest))
    (l : List α) : motive l := by
  induction l using (InvImage.wf (fun l : List α => (l : Multiset α)) hr.cutExpand).induction with
  | _ l ih =>
    cases l with
    | nil => exact nil
    | cons a rest =>
      refine cons a rest fun new l hnew hperm => ih l ⟨new, a, fun b hb => hnew b (mem_coe.mp hb), ?_⟩
      show (l : Multiset α) + {a} = (a :: rest : List α) + (new : Multiset α)
      rw [coe_eq_coe.mpr hperm, ← coe_add, ← cons_coe, ← singleton_add,
        add_comm (new : Multiset α), add_right_comm, add_comm (rest : Multiset α)]

section
variable {ι : Type} [SemilatticeSup ι]

/-- A computation with bounds on its depth returns a value for all bounds that are large enough. -/
def Settles (f : ι → Checked β) (b : β) : Prop := ∃ n, ∀ m, n ≤ m → f m = .ok b

lemma Settles.bind {f : ι → Checked β} {b : β} (hf : Settles f b) {g : ι → β → Checked γ} {c : γ}
    (hg : Settles (fun m => g m b) c) : Settles (fun m => f m >>= g m) c := by
  obtain ⟨n, hn⟩ := hf
  obtain ⟨k, hk⟩ := hg
  refine ⟨n ⊔ k, fun m hm => ?_⟩
  show (f m >>= g m) = .ok c
  rw [hn m (le_sup_left.trans hm), ok_bind]
  exact hk m (le_sup_right.trans hm)

end

lemma settles_const [SemilatticeSup ι] [Inhabited ι] (b : β) : Settles (fun _ : ι => .ok b) b :=
  ⟨default, fun _ _ => rfl⟩

lemma Settles.exists_eq [SemilatticeSup ι] {f : ι → Checked β} (h : Settles f b) : ∃ m, f m = .ok b := by
  obtain ⟨n, hn⟩ := h
  exact ⟨n, hn n le_rfl⟩

/-- A loop over a list, with an invariant. -/
lemma settles_foldlM [SemilatticeSup ι] [Inhabited ι] {f : ι → β → α → Checked β} {P : β → Prop}
    {l : List α} (hstep : ∀ a ∈ l, ∀ b, P b → ∃ c, Settles (fun m => f m b a) c ∧ P c) (b : β) (hb : P b) :
    ∃ c, Settles (fun m => l.foldlM (f m) b) c ∧ P c := by
  induction l generalizing b with
  | nil => exact ⟨b, settles_const b, hb⟩
  | cons a l ih =>
    rw [List.forall_mem_cons] at hstep
    obtain ⟨c, hc, hPc⟩ := hstep.1 b hb
    obtain ⟨d, hd, hPd⟩ := ih hstep.2 c hPc
    exact ⟨d, hc.bind hd, hPd⟩

/-- A computation that spends one unit of its bound. -/
lemma Settles.of_succ {f : Nat → Checked β} (h : Settles (fun m => f (m + 1)) b) : Settles f b := by
  obtain ⟨n, hn⟩ := h
  refine ⟨n + 1, fun m hm => ?_⟩
  obtain ⟨k, rfl⟩ : ∃ k, m = k + 1 := ⟨m - 1, by omega⟩
  exact hn k (by omega)

/-- A loop that spends one unit of its bound, with another bound for what it calls. -/
lemma Settles.of_succ_snd (h : Settles (fun m : Nat × Nat => f (m.1, m.2 + 1)) b) : Settles f b := by
  obtain ⟨n, hn⟩ := h
  refine ⟨(n.1, n.2 + 1), fun m hm => ?_⟩
  obtain ⟨hfst, hsnd⟩ := Prod.mk_le_mk.mp hm
  obtain ⟨k, hk⟩ : ∃ k, m.2 = k + 1 := ⟨m.2 - 1, by omega⟩
  have hm : m = (m.1, k + 1) := by rw [← hk]
  rw [hm]
  exact hn (m.1, k) (Prod.mk_le_mk.mpr ⟨hfst, by omega⟩)

lemma Settles.fst {f : Nat → Checked β} (h : Settles f b) : Settles (fun m : Nat × Nat => f m.1) b := by
  obtain ⟨n, hn⟩ := h
  exact ⟨(n, 0), fun m hm => hn m.1 hm.1⟩

/-- One bound for both. -/
lemma Settles.diagonal (h : Settles f b) : Settles (fun m => f (m, m)) b := by
  obtain ⟨n, hn⟩ := h
  exact ⟨max n.1 n.2, fun m hm => hn (m, m) ⟨(le_max_left _ _).trans hm, (le_max_right _ _).trans hm⟩⟩

end dart.worklist
