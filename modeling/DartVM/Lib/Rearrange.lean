import DartVM.Lib.SortedMap

namespace dart.rearrange
open Function List
open dart.sorted_map (TotalPreorder)
variable {α : Type} {lo hi : Int} {f g : Int → α} {i : Int} {n : Nat} {is : List Int}

/-- A function rearranges another one between two indices. -/
def Rearranges (lo hi : Int) (f g : Int → α) : Prop :=
  ∃ σ : Equiv.Perm Int, (∀ i, ¬(lo ≤ i ∧ i ≤ hi) → σ i = i) ∧ g = f ∘ σ

namespace Rearranges

lemma refl (f : Int → α) : Rearranges lo hi f f := ⟨Equiv.refl Int, fun _ _ => rfl, rfl⟩

lemma trans {h : Int → α} (hfg : Rearranges lo hi f g) (hgh : Rearranges lo hi g h) : Rearranges lo hi f h := by
  obtain ⟨σ, hσ, rfl⟩ := hfg
  obtain ⟨τ, hτ, rfl⟩ := hgh
  refine ⟨τ.trans σ, fun i hi => ?_, rfl⟩
  rw [Equiv.trans_apply, hτ i hi, hσ i hi]

variable (h : Rearranges lo hi f g)
include h

lemma mono {lo' hi' : Int} (hlo : lo' ≤ lo) (hhi : hi ≤ hi') : Rearranges lo' hi' f g := by
  obtain ⟨σ, hσ, hg⟩ := h
  exact ⟨σ, fun i hi => hσ i (by omega), hg⟩

lemma eq_outside {i : Int} (hi : ¬(lo ≤ i ∧ i ≤ hi)) : g i = f i := by
  obtain ⟨σ, hσ, rfl⟩ := h
  rw [comp_apply, hσ i hi]

lemma update_outside {i : Int} (hout : ¬(lo ≤ i ∧ i ≤ hi)) (x : α) :
    Rearranges lo hi (update f i x) (update g i x) := by
  obtain ⟨σ, hσ, rfl⟩ := h
  refine ⟨σ, hσ, ?_⟩
  have hcomp := update_comp_eq_of_injective f σ.injective i x
  rwa [hσ i hout, eq_comm] at hcomp

/-- An index inside is not taken from outside. -/
lemma exists_eq {i : Int} (hlo : lo ≤ i) (hhi : i ≤ hi) : ∃ j, lo ≤ j ∧ j ≤ hi ∧ g i = f j := by
  obtain ⟨σ, hσ, rfl⟩ := h
  by_cases hin : lo ≤ σ i ∧ σ i ≤ hi
  · exact ⟨σ i, hin.1, hin.2, rfl⟩
  have hfixed : σ (σ i) = σ i := hσ (σ i) hin
  rw [σ.injective hfixed] at hin
  exact absurd ⟨hlo, hhi⟩ hin

/-- What holds of all values between two indices still does, if these are not inside or nothing there was rearranged. -/
lemma forall_between {P : α → Prop} {a b : Int} (hab : a ≤ lo ∧ hi ≤ b ∨ b < lo ∨ hi < a)
    (hP : ∀ i, a ≤ i → i ≤ b → P (f i)) : ∀ i, a ≤ i → i ≤ b → P (g i) := by
  intro i hai hib
  by_cases hin : lo ≤ i ∧ i ≤ hi
  · obtain ⟨j, hlo, hhi, heq⟩ := h.exists_eq hin.1 hin.2
    rw [heq]
    exact hP j (by omega) (by omega)
  · rw [h.eq_outside hin]
    exact hP i hai hib

end Rearranges

section
variable {i j : Int} (hin : lo ≤ i ∧ i ≤ hi) (hjn : lo ≤ j ∧ j ≤ hi)
include hin hjn

/-- Two values are exchanged. -/
lemma rearranges_swap (f : Int → α) : Rearranges lo hi f (update (update f i (f j)) j (f i)) := by
  refine ⟨Equiv.swap j i, fun k hk => ?_, (Equiv.comp_swap_eq_update j i f).symm⟩
  apply Equiv.swap_apply_of_ne_of_ne
  · rintro rfl
    exact hk hjn
  · rintro rfl
    exact hk hin

/-- A value is moved into a place whose value was saved. -/
lemma rearranges_move (f : Int → α) (x : α) : Rearranges lo hi (update f i x) (update (update f i (f j)) j x) := by
  obtain rfl | hij := eq_or_ne i j
  · rw [update_idem]
    exact .refl _
  · have h := rearranges_swap hin hjn (update f i x)
    rwa [update_self, update_of_ne hij.symm, update_idem] at h

/-- Two values are moved into places whose values were saved. -/
lemma rearranges_move_two {i' j' : Int} (hin' : lo ≤ i' ∧ i' ≤ hi) (hjn' : lo ≤ j' ∧ j' ≤ hi) (hii' : i ≠ i')
    (hji' : j ≠ i') (hj'i : j' ≠ i) (hj'j : j' ≠ j) (f : Int → α) (x x' : α) :
    Rearranges lo hi (update (update f i x) i' x')
      (update (update (update (update f i (f j)) j x) i' (f j')) j' x') := by
  have hfst := rearranges_move hin hjn (update f i' x') x
  rw [update_of_ne hji', update_comm hii'.symm, update_comm hii'.symm, update_comm hji'.symm] at hfst
  have hsnd := rearranges_move hin' hjn' (update (update f i (f j)) j x) x'
  rw [update_of_ne hj'j, update_of_ne hj'i] at hsnd
  exact hfst.trans hsnd

end

/-- An exchange of three values in a circle is two exchanges. -/
lemma rotate_eq {k less great : Int} (hkg : k ≠ great) (hlg : less ≠ great) {f g : Int → α}
    (hg : g = update (update f k (f great)) great (f k)) :
    update (update (update f k (f less)) less (f great)) great (f k) = update (update g k (g less)) less (g k) := by
  funext i
  simp only [hg, update_apply]
  split_ifs <;> simp_all

lemma rearranges_rotate {k less great : Int} (hk : lo ≤ k ∧ k ≤ hi) (hless : lo ≤ less ∧ less ≤ hi)
    (hgreat : lo ≤ great ∧ great ≤ hi) (hkg : k ≠ great) (hlg : less ≠ great) (f : Int → α) :
    Rearranges lo hi f (update (update (update f k (f less)) less (f great)) great (f k)) := by
  rw [rotate_eq hkg hlg rfl]
  exact (rearranges_swap hk hgreat f).trans (rearranges_swap hk hless _)

/-- Values are written at indices. -/
def putAll (f : Int → α) : List Int → List α → Int → α
  | i :: is, x :: xs => putAll (update f i x) is xs
  | _, _ => f

lemma putAll_update (hi : i ∉ is) (x : α) (xs : List α) (f : Int → α) :
    putAll (update f i x) is xs = update (putAll f is xs) i x := by
  induction is generalizing xs f with
  | nil => rfl
  | cons j is ih =>
    rw [mem_cons, not_or] at hi
    cases xs with
    | nil => rfl
    | cons y xs => rw [putAll, putAll, update_comm hi.1, ih hi.2]

/-- Values are written at indices in another order. -/
lemma rearranges_putAll {xs ys : List α} (hperm : xs.Perm ys) (hlen : xs.length = is.length)
    (hnodup : is.Nodup) (hin : ∀ i ∈ is, lo ≤ i ∧ i ≤ hi) (f : Int → α) :
    Rearranges lo hi (putAll f is xs) (putAll f is ys) := by
  induction hperm generalizing is f with
  | nil => exact .refl _
  | cons x _ ih =>
    cases is with
    | nil => exact .refl _
    | cons i is =>
      exact ih (Nat.succ_inj.mp hlen) (nodup_cons.mp hnodup).2 (fun j hj => hin j (mem_cons_of_mem i hj)) _
  | swap x y l =>
    match is, hlen with
    | i :: j :: is, _ =>
      obtain ⟨hi, hj, -⟩ : i ∉ j :: is ∧ j ∉ is ∧ is.Nodup := by rwa [nodup_cons, nodup_cons] at hnodup
      rw [mem_cons, not_or] at hi
      simp only [putAll, putAll_update hi.2, putAll_update hj]
      have hswap := rearranges_swap (hin i (.head _)) (hin j (by simp)) (update (update (putAll f is l) i y) j x)
      have hcomm (g : Int → α) : update (update (update g i y) j x) i x = update (update g i x) j x := by
        rw [update_comm hi.1, update_idem, update_comm hi.1]
      rwa [update_self, update_of_ne hi.1, update_self, hcomm, update_idem] at hswap
  | trans hxy _ ih1 ih2 => exact (ih1 hlen hnodup hin f).trans (ih2 (hxy.length_eq.symm.trans hlen) hnodup hin f)

section
variable {compare : α → α → Int}

/-- The values between two indices are in order. -/
def Ordered (compare : α → α → Int) (lo hi : Int) (f : Int → α) : Prop :=
  ∀ i j, lo ≤ i → i < j → j ≤ hi → compare (f i) (f j) ≤ 0

lemma ordered_of_le (h : hi ≤ lo) : Ordered compare lo hi f := fun i j _ _ _ => by omega

lemma Ordered.congr (hf : Ordered compare lo hi f) (h : ∀ i, lo ≤ i → i ≤ hi → g i = f i) : Ordered compare lo hi g := by
  intro i j hi hij hj
  rw [h i hi (by omega), h j (by omega) hj]
  exact hf i j hi hij hj

/-- Two parts in order, with a value between them. -/
lemma Ordered.append (hcmp : TotalPreorder compare) {m : Int} (hl : Ordered compare lo m f)
    (hr : Ordered compare (m + 1) hi f) {x : α} (hle : ∀ i, lo ≤ i → i ≤ m → compare (f i) x ≤ 0)
    (hge : ∀ i, m + 1 ≤ i → i ≤ hi → compare x (f i) ≤ 0) : Ordered compare lo hi f := by
  intro i j hi hij hj
  obtain hjm | hjm : j ≤ m ∨ m + 1 ≤ j := by omega
  · exact hl i j hi hij hjm
  obtain him | him : i ≤ m ∨ m + 1 ≤ i := by omega
  · exact hcmp.trans _ x _ (hle i hi him) (hge j hjm hj)
  · exact hr i j him hij hj

/-- The values between two indices are in order but for a hole, and a saved value is not above those after it. -/
structure OrderedHole (compare : α → α → Int) (lo hi : Int) (f : Int → α) (j : Int) (x : α) : Prop where
  ordered : ∀ a b, lo ≤ a → a < b → b ≤ hi → a ≠ j → b ≠ j → compare (f a) (f b) ≤ 0
  above : ∀ b, j < b → b ≤ hi → compare x (f b) ≤ 0

namespace OrderedHole
variable {j : Int} {x : α} (hhole : OrderedHole compare lo hi f j x)
include hhole

lemma shift (hcmp : TotalPreorder compare) (hlo : lo < j) (hgt : 0 < compare (f (j - 1)) x) :
    OrderedHole compare lo hi (update f j (f (j - 1))) (j - 1) x := by
  have hlt : compare x (f (j - 1)) < 0 := (hcmp.flip _ _).mpr hgt
  refine ⟨fun a b ha hab hb haj hbj => ?_, fun b hb hbhi => ?_⟩
  · obtain rfl | hbj' := eq_or_ne b j
    · rw [update_self, update_of_ne (by omega)]
      exact hhole.ordered a (b - 1) ha (by omega) (by omega) (by omega) (by omega)
    rw [update_of_ne hbj']
    obtain rfl | haj' := eq_or_ne a j
    · rw [update_self]
      exact hhole.ordered (a - 1) b (by omega) (by omega) hb (by omega) hbj'
    · rw [update_of_ne haj']
      exact hhole.ordered a b ha hab hb haj' hbj'
  · obtain rfl | hbj : b = j ∨ j < b := by omega
    · rw [update_self]
      exact Int.le_of_lt hlt
    · rw [update_of_ne (by omega)]
      exact hhole.above b hbj hbhi

lemma fill (hcmp : TotalPreorder compare) (hstop : j = lo ∨ compare (f (j - 1)) x ≤ 0) :
    Ordered compare lo hi (update f j x) := by
  have hbelow : ∀ a, lo ≤ a → a < j → j ≤ hi → compare (f a) x ≤ 0 := fun a ha haj hj => by
    have hle : compare (f (j - 1)) x ≤ 0 := hstop.resolve_left (by omega)
    obtain rfl | haj : a = j - 1 ∨ a < j - 1 := by omega
    · exact hle
    · exact hcmp.trans _ _ _ (hhole.ordered a (j - 1) ha haj (by omega) (by omega) (by omega)) hle
  intro a b ha hab hb
  obtain rfl | hbj := eq_or_ne b j
  · rw [update_self, update_of_ne (by omega)]
    exact hbelow a ha hab hb
  rw [update_of_ne hbj]
  obtain rfl | haj := eq_or_ne a j
  · rw [update_self]
    exact hhole.above b hab hb
  · rw [update_of_ne haj]
    exact hhole.ordered a b ha hab hb haj hbj

end OrderedHole
end

/-- The list of the values at the first indices. -/
def toList (n : Nat) (f : Int → α) : List α := (List.range n).map fun i : Nat => f (i : Int)

@[simp] lemma length_toList (n : Nat) (f : Int → α) : (toList n f).length = n := by
  simp [toList]

lemma getElem?_toList (hi : 0 ≤ i) (hn : i < n) (f : Int → α) : (toList n f)[i.toNat]? = some (f i) := by
  have htoNat : ((i.toNat : Nat) : Int) = i := Int.toNat_of_nonneg hi
  simp [toList, getElem?_range (show i.toNat < n by omega), htoNat]

lemma set_toList (hi : 0 ≤ i) (x : α) (f : Int → α) : (toList n f).set i.toNat x = toList n (update f i x) := by
  apply ext_getElem
  · simp
  · intro j hj hj'
    simp only [toList, getElem_set, getElem_map, getElem_range, update_apply]
    by_cases hij : i.toNat = j
    · rw [if_pos hij, if_pos (by omega)]
    · rw [if_neg hij, if_neg (by omega)]

/-- The elements from an index on, up to another one. -/
def segment (lo hi : Int) (a : List α) : List α := (a.take hi.toNat).drop lo.toNat

/-- The indices of a segment. -/
def indices (lo hi : Int) : List Int := (List.range' lo.toNat (hi - lo).toNat).map fun i : Nat => (i : Int)

lemma mem_indices (hlo : 0 ≤ lo) : i ∈ indices lo hi ↔ lo ≤ i ∧ i < hi := by
  simp only [indices, mem_map, mem_range'_1]
  constructor
  · rintro ⟨j, hj, rfl⟩
    omega
  · intro hi
    exact ⟨i.toNat, by omega, by omega⟩

lemma nodup_indices (lo hi : Int) : (indices lo hi).Nodup := Nodup.map (fun _ _ h => Int.ofNat.inj h) nodup_range'

lemma segment_toList (hlo : 0 ≤ lo) (hle : lo ≤ hi) (hn : hi ≤ n) (f : Int → α) :
    segment lo hi (toList n f) = (indices lo hi).map f := by
  apply ext_getElem
  · simp only [segment, indices, length_drop, length_take, length_toList, length_map, length_range']
    omega
  · intro i hi1 hi2
    simp [segment, indices, toList]

/-- A segment is rearranged. -/
lemma Rearranges.perm_segment (h : Rearranges lo (hi - 1) f g) (hlo : 0 ≤ lo) (hle : lo ≤ hi) (hn : hi ≤ n) :
    (segment lo hi (toList n g)).Perm (segment lo hi (toList n f)) := by
  obtain ⟨σ, hσ, rfl⟩ := h
  have hinside : ∀ i, lo ≤ i ∧ i ≤ hi - 1 → lo ≤ σ i ∧ σ i ≤ hi - 1 := fun i hin => by
    by_contra hout
    rw [σ.injective (hσ (σ i) hout)] at hout
    exact hout hin
  have hperm : ((indices lo hi).map σ).Perm (indices lo hi) := by
    refine (perm_ext_iff_of_nodup ((nodup_indices lo hi).map σ.injective) (nodup_indices lo hi)).mpr fun i => ?_
    rw [mem_map]
    constructor
    · rintro ⟨j, hj, rfl⟩
      rw [mem_indices hlo] at hj ⊢
      have := hinside j (by omega)
      omega
    · intro hi
      refine ⟨σ.symm i, ?_, σ.apply_symm_apply i⟩
      rw [mem_indices hlo] at hi ⊢
      by_contra hout
      have hfixed : i = σ.symm i := (σ.apply_symm_apply i).symm.trans (hσ (σ.symm i) (by omega))
      rw [← hfixed] at hout
      exact hout hi
  rw [segment_toList hlo hle hn, segment_toList hlo hle hn, ← map_map]
  exact hperm.map f

lemma Ordered.pairwise_segment {compare : α → α → Int} (h : Ordered compare lo (hi - 1) f) (hlo : 0 ≤ lo)
    (hle : lo ≤ hi) (hn : hi ≤ n) : (segment lo hi (toList n f)).Pairwise fun x y => compare x y ≤ 0 := by
  rw [segment_toList hlo hle hn, pairwise_map, indices, pairwise_map]
  refine Pairwise.imp_of_mem (fun hi hj hij => ?_) (pairwise_lt_range' ..)
  rw [mem_range'_1] at hi hj
  exact h _ _ (by omega) (by omega) (by omega)

lemma Rearranges.getElem?_toList_eq (h : Rearranges lo hi f g) {i : Nat} (hout : ¬(lo ≤ i ∧ i ≤ hi)) (n : Nat) :
    (toList n g)[i]? = (toList n f)[i]? := by
  simp only [toList, getElem?_map]
  by_cases hi : i < n
  · rw [getElem?_range hi, Option.map_some, Option.map_some, h.eq_outside hout]
  · rw [getElem?_eq_none (by rw [length_range]; omega)]
    rfl

/-- A list with a value for all other indices. -/
lemma exists_toList_eq (a : List α) (hne : a ≠ []) : ∃ f : Int → α, a = toList a.length f := by
  obtain ⟨x, hx⟩ := exists_mem_of_ne_nil a hne
  refine ⟨fun i => a.getD i.toNat x, ext_getElem (by simp) fun i hi hi' => ?_⟩
  simp [toList, getD_eq_getElem?_getD, hi]

end dart.rearrange
