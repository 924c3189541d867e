import DartVM.Lib.Rearrange

namespace dart.rearrange
open Function Int
open dart.sorted_map (TotalPreorder)
variable {α : Type} {lo hi less great : Int}

/-- A partition in progress: low values before `less`, middle ones up to `k` and high ones after `great`. -/
structure Parts (Low Mid High : α → Prop) (lo less k great hi : Int) (f : Int → α) : Prop where
  low : ∀ i, lo ≤ i → i < less → Low (f i)
  mid : ∀ i, less ≤ i → i < k → Mid (f i)
  high : ∀ i, great < i → i ≤ hi → High (f i)

/-- A partition that was not begun. -/
lemma parts_start (Low Mid High : α → Prop) (lo hi : Int) (f : Int → α) : Parts Low Mid High lo lo lo hi hi f :=
  ⟨fun i h h' => by omega, fun i h h' => by omega, fun i h h' => by omega⟩

namespace Parts
variable {Low Mid High : α → Prop} {lo less k great hi : Int} {f : Int → α}
  (h : Parts Low Mid High lo less k great hi f)

include h

lemma extend_mid (hk : Mid (f k)) : Parts Low Mid High lo less (k + 1) great hi f := by
  refine ⟨h.low, fun i hi hik => ?_, h.high⟩
  obtain rfl | hik : i = k ∨ i < k := by omega
  · exact hk
  · exact h.mid i hi hik

lemma extend_high {great' : Int} (hgreat : ∀ i, great' < i → i ≤ great → High (f i)) :
    Parts Low Mid High lo less k great' hi f := by
  refine ⟨h.low, h.mid, fun i hi hhi => ?_⟩
  obtain hle | hgt : i ≤ great ∨ great < i := by omega
  · exact hgreat i hi hle
  · exact h.high i hgt hhi

/-- A low value is exchanged with the first one of the middle. -/
lemma swap_low (hless : less ≤ k) (hk : Low (f k)) (hkg : k ≤ great) :
    Parts Low Mid High lo (less + 1) (k + 1) great hi (update (update f k (f less)) less (f k)) := by
  refine ⟨fun i hlo hi => ?_, fun i hi hik => ?_, fun i hi hhi => ?_⟩
  · obtain rfl | hi : i = less ∨ i < less := by omega
    · rwa [update_self]
    · simp (disch := omega) only [update_of_ne]
      exact h.low i hlo hi
  · rw [update_of_ne (by omega)]
    obtain rfl | hik : i = k ∨ i < k := by omega
    · rw [update_self]
      exact h.mid less (by omega) (by omega)
    · rw [update_of_ne (by omega)]
      exact h.mid i (by omega) hik
  · simp (disch := omega) only [update_of_ne]
    exact h.high i hi hhi

/-- A high value is exchanged with the last one that is not known. -/
lemma exchange_high (hless : less ≤ k) (hk : High (f k)) (hkg : k < great) :
    Parts Low Mid High lo less k (great - 1) hi (update (update f k (f great)) great (f k)) := by
  refine ⟨fun i hlo hi => ?_, fun i hi hik => ?_, fun i hi hhi => ?_⟩
  · simp (disch := omega) only [update_of_ne]
    exact h.low i hlo hi
  · simp (disch := omega) only [update_of_ne]
    exact h.mid i hi hik
  · obtain rfl | hi : i = great ∨ great < i := by omega
    · rwa [update_self]
    · simp (disch := omega) only [update_of_ne]
      exact h.high i hi hhi

/-- A high value is exchanged with one of the middle. -/
lemma swap_high (hless : less ≤ k) (hk : High (f k)) (hgreat : Mid (f great)) (hkg : k < great) :
    Parts Low Mid High lo less (k + 1) (great - 1) hi (update (update f k (f great)) great (f k)) := by
  refine (h.exchange_high hless hk hkg).extend_mid ?_
  rwa [update_of_ne hkg.ne, update_self]

/-- A high value is exchanged with a low one, and this with the first one of the middle. -/
lemma rotate (hless : less ≤ k) (hk : High (f k)) (hgreat : Low (f great)) (hkg : k < great) :
    Parts Low Mid High lo (less + 1) (k + 1) (great - 1) hi
      (update (update (update f k (f less)) less (f great)) great (f k)) := by
  rw [rotate_eq hkg.ne (by omega) rfl]
  refine (h.exchange_high hless hk hkg).swap_low hless ?_ (by omega)
  rwa [update_of_ne hkg.ne, update_self]

/-- The first high value is exchanged with the last one of the middle, which is high as well. -/
lemma swap_last (hless : less < k) (hk : High (f k)) (hlast : High (f (k - 1))) (hkg : k - 1 = great) :
    Parts Low Mid High lo less (k - 1) (k - 2) hi (update (update f k (f (k - 1))) (k - 1) (f k)) := by
  refine ⟨fun i hlo hi => ?_, fun i hi hik => ?_, fun i hi hhi => ?_⟩
  · simp (disch := omega) only [update_of_ne]
    exact h.low i hlo hi
  · simp (disch := omega) only [update_of_ne]
    exact h.mid i hi (by omega)
  · obtain rfl | hi : i = k - 1 ∨ k - 1 < i := by omega
    · rwa [update_self]
    rw [update_of_ne (by omega)]
    obtain rfl | hi : i = k ∨ k < i := by omega
    · rwa [update_self]
    · rw [update_of_ne (by omega)]
      exact h.high i (by omega) hhi

end Parts

/-- A partition of the values between two indices, with its bounds. -/
structure Partitioned (Low Mid High : α → Prop) (lo hi : Int) (f g : Int → α) (less great : Int) : Prop where
  rearranges : Rearranges lo hi f g
  lo_le : lo ≤ less
  less_le : less ≤ great + 1
  great_le : great ≤ hi
  parts : Parts Low Mid High lo less (great + 1) great hi g

lemma Partitioned.after {Low Mid High : α → Prop} {f f' g : Int → α}
    (h : Partitioned Low Mid High lo hi f' g less great) (hf : Rearranges lo hi f f') :
    Partitioned Low Mid High lo hi f g less great := { h with rearranges := hf.trans h.rearranges }

/-- The parts of a partition may be described by weaker properties. -/
lemma Partitioned.imp {Low Mid High Low' Mid' High' : α → Prop} {f g : Int → α}
    (h : Partitioned Low Mid High lo hi f g less great) (hlo : ∀ x, Low x → Low' x) (hmid : ∀ x, Mid x → Mid' x)
    (hhi : ∀ x, High x → High' x) : Partitioned Low' Mid' High' lo hi f g less great :=
  { h with
    parts := ⟨fun i h1 h2 => hlo _ (h.parts.low i h1 h2), fun i h1 h2 => hmid _ (h.parts.mid i h1 h2),
      fun i h1 h2 => hhi _ (h.parts.high i h1 h2)⟩ }

/-- Two pivots in their places, with the values below, between and above them. -/
structure Pivoted (compare : α → α → Int) (pivot1 pivot2 : α) (lo less great hi : Int) (f : Int → α) : Prop where
  low : ∀ i, lo ≤ i → i ≤ less - 2 → compare (f i) pivot1 ≤ 0
  pivot1_eq : f (less - 1) = pivot1
  mid : ∀ i, less ≤ i → i ≤ great → compare pivot1 (f i) ≤ 0 ∧ compare (f i) pivot2 ≤ 0
  pivot2_eq : f (great + 1) = pivot2
  high : ∀ i, great + 2 ≤ i → i ≤ hi → compare pivot2 (f i) ≤ 0
  lo_lt : lo < less
  less_le : less ≤ great + 1
  great_lt : great < hi

namespace Pivoted
variable {compare : α → α → Int} {pivot1 pivot2 : α} {lo less great hi : Int} {f g : Int → α}
  (h : Pivoted compare pivot1 pivot2 lo less great hi f)

include h

/-- One of the parts is sorted. -/
lemma sort {a b : Int} (hab : a = lo ∧ b = less - 2 ∨ a = less ∧ b = great ∨ a = great + 2 ∧ b = hi)
    (hg : Rearranges a b f g) : Pivoted compare pivot1 pivot2 lo less great hi g :=
  have hless := h.less_le
  { h with
    low := hg.forall_between (P := fun x => compare x pivot1 ≤ 0) (by omega) h.low
    pivot1_eq := (hg.eq_outside (by omega)).trans h.pivot1_eq
    mid := hg.forall_between (P := fun x => compare pivot1 x ≤ 0 ∧ compare x pivot2 ≤ 0) (by omega) h.mid
    pivot2_eq := (hg.eq_outside (by omega)).trans h.pivot2_eq
    high := hg.forall_between (P := fun x => compare pivot2 x ≤ 0) (by omega) h.high }

/-- The middle is in order if what is equal to a pivot is at its ends and the rest is in order. -/
lemma ordered_mid (hcmp : TotalPreorder compare) {less' great' : Int}
    (hequal1 : ∀ i, less ≤ i → i < less' → compare (f i) pivot1 = 0)
    (hequal2 : ∀ i, great' < i → i ≤ great → compare (f i) pivot2 = 0) (hord : Ordered compare less' great' f) :
    Ordered compare less great f := by
  intro i j hi hij hj
  have hmidi := h.mid i hi (by omega)
  have hmidj := h.mid j (by omega) hj
  obtain hi' | hi' : i < less' ∨ less' ≤ i := by omega
  · exact hcmp.trans _ pivot1 _ (le_of_eq (hequal1 i hi hi')) hmidj.1
  obtain hj' | hj' : great' < j ∨ j ≤ great' := by omega
  · exact hcmp.trans _ pivot2 _ hmidi.2 (le_of_eq (hcmp.symm (hequal2 j hj' hj)))
  · exact hord i j hi' hij hj'

/-- The values are in order once the parts are. -/
lemma ordered (hcmp : TotalPreorder compare) (hle : compare pivot1 pivot2 ≤ 0) (hlo : Ordered compare lo (less - 2) f)
    (hmid : Ordered compare less great f) (hhi : Ordered compare (great + 2) hi f) : Ordered compare lo hi f := by
  have hmid_le : ∀ i, less - 1 ≤ i → i ≤ great → compare (f i) pivot2 ≤ 0 := fun i hi hig => by
    obtain rfl | hi : i = less - 1 ∨ less ≤ i := by omega
    · rwa [h.pivot1_eq]
    · exact (h.mid i hi hig).2
  have hhigh_ge : ∀ i, great + 1 ≤ i → i ≤ hi → compare pivot2 (f i) ≤ 0 := fun i hi hig => by
    obtain rfl | hi : i = great + 1 ∨ great + 2 ≤ i := by omega
    · rw [h.pivot2_eq, hcmp.refl]
    · exact h.high i hi hig
  have hmid_ge : ∀ i, less - 1 ≤ i → i ≤ hi → compare pivot1 (f i) ≤ 0 := fun i hi hig => by
    obtain rfl | hi : i = less - 1 ∨ less ≤ i := by omega
    · rw [h.pivot1_eq, hcmp.refl]
    obtain hig' | hig' : i ≤ great ∨ great + 1 ≤ i := by omega
    · exact (h.mid i hi hig').1
    · exact hcmp.trans _ pivot2 _ hle (hhigh_ge i hig' hig)
  have hupper : Ordered compare (great + 1) hi f := by
    refine Ordered.append hcmp (ordered_of_le le_rfl) (by rwa [Int.add_assoc]) (fun i hi hig => ?_)
      (fun i hi hig => hhigh_ge i (by omega) hig)
    obtain rfl : i = great + 1 := by omega
    rw [h.pivot2_eq, hcmp.refl]
  have hcentre : Ordered compare (less - 1) great f := by
    refine Ordered.append hcmp (ordered_of_le le_rfl) (by rwa [Int.sub_add_cancel]) (fun i hi hig => ?_)
      (fun i hi hig => (h.mid i (by omega) hig).1)
    obtain rfl : i = less - 1 := by omega
    rw [h.pivot1_eq, hcmp.refl]
  have hrest : Ordered compare (less - 1) hi f := hcentre.append hcmp hupper hmid_le hhigh_ge
  exact hlo.append hcmp (by rwa [show less - 2 + 1 = less - 1 by omega]) h.low
    (fun i hi hig => hmid_ge i (by omega) hig)

end Pivoted
end dart.rearrange
