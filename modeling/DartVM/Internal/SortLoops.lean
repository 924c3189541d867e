import DartVM.Internal.Sort
import DartVM.Lib.Partition

namespace dart.internal
open Function Int
open dart.rearrange
open dart.sorted_map (TotalPreorder)
variable {E : Type} {compare : E → E → Int} {n : Nat} {first last : Int} (hfst : 0 ≤ first) (hend : last < n) {i : Int}
  {k less great : Int} {pivot : E} {f : Int → E} {stop : Int} {low high : Int → Bool} {pivot1 pivot2 : E} {lo hi : Int}
  {fuel : Nat}

include hfst hend

lemma read_toList (hi : first ≤ i) (hir : i ≤ last) (f : Int → E) : read first last (toList n f) i = .ok (f i) := by
  rw [read, if_pos ⟨hi, hir, by omega⟩, getElem?_toList (by omega) (by omega)]

lemma write_toList (hi : first ≤ i) (hir : i ≤ last) (f : Int → E) (x : E) :
    write first last (toList n f) i x = .ok (toList n (update f i x)) := by
  rw [write, if_pos ⟨hi, hir, by omega, by rw [length_toList]; omega⟩, set_toList (by omega)]

section
variable {left right : Int} (hl : first ≤ left) (hr : right ≤ last) (hcmp : TotalPreorder compare)
include hl hr hcmp

/-- The inner loop finds the place of an element, whose old place may be written to. -/
lemma shift_up_spec {el : E} {i : Int} (hi : i ≤ right) (fuel : Nat) {f : Int → E}
    {j : Int} (hj : left ≤ j) (hji : j ≤ i) (hfuel : j - left < fuel) (hhole : OrderedHole compare left i f j el) :
    ∃ g j', shift_up compare first last left el fuel (toList n f) j = .ok (toList n g, j') ∧ left ≤ j' ∧ j' ≤ i ∧
      Rearranges left i (update f j el) (update g j' el) ∧ Ordered compare left i (update g j' el) := by
  induction fuel generalizing f j with
  | zero => omega
  | succ fuel ih =>
    rw [shift_up]
    by_cases hjl : j > left
    · rw [if_pos hjl, read_toList hfst hend (by omega) (by omega), ok_bind]
      by_cases hgt : compare (f (j - 1)) el > 0
      · rw [if_pos hgt, write_toList hfst hend (by omega) (by omega), ok_bind]
        obtain ⟨g, j', hrun, hj', hji', hmov, hord⟩ := ih (by omega) (by omega) (by omega) (hhole.shift hcmp hjl hgt)
        have hmove := rearranges_move (show left ≤ j ∧ j ≤ i by omega) (show left ≤ j - 1 ∧ j - 1 ≤ i by omega) f el
        exact ⟨g, j', hrun, hj', hji', hmove.trans hmov, hord⟩
      · rw [if_neg hgt]
        exact ⟨f, j, rfl, hj, hji, .refl _, hhole.fill hcmp (.inr (by omega))⟩
    · rw [if_neg hjl]
      exact ⟨f, j, rfl, hj, hji, .refl _, hhole.fill hcmp (.inl (by omega))⟩

lemma insert_from_spec (fuel : Nat) {f : Int → E} {i : Int} (hi : left < i)
    (hfuel : right - i + 1 < fuel) (hpos : 0 < fuel) (hord : Ordered compare left (i - 1) f) :
    ∃ g, insert_from compare first last left right fuel (toList n f) i = .ok (toList n g) ∧ Rearranges left right f g ∧
      Ordered compare left right g := by
  induction fuel generalizing f i with
  | zero => omega
  | succ fuel ih =>
    rw [insert_from]
    by_cases hir : i ≤ right
    · have hhole : OrderedHole compare left i f i (f i) :=
        ⟨fun a b ha hab hb _ hbi => hord a b ha hab (by omega), fun b hib hbi => by omega⟩
      obtain ⟨g, j, hshift, hj, hji, hmov, hord'⟩ := shift_up_spec hfst hend hl hr hcmp hir
        ((i - left).toNat + 1) (le_of_lt hi) le_rfl (by omega) hhole
      rw [update_eq_self] at hmov
      rw [if_pos hir, read_toList hfst hend (by omega) (by omega), ok_bind, hshift, ok_bind]
      dsimp only
      rw [write_toList hfst hend (by omega) (by omega), ok_bind]
      obtain ⟨g', hrun, hmov', hord''⟩ := @ih (update g j (f i)) (i + 1) (by omega) (by omega) (by omega)
        (by rwa [Int.add_sub_cancel])
      exact ⟨g', hrun, (hmov.mono le_rfl hir).trans hmov', hord''⟩
    · rw [if_neg hir]
      exact ⟨f, rfl, .refl f, fun a b ha hab hb => hord a b ha hab (by omega)⟩

lemma insertion_sort_spec (f : Int → E) :
    ∃ g, insertion_sort compare first last left right (toList n f) = .ok (toList n g) ∧ Rearranges left right f g ∧
      Ordered compare left right g :=
  insert_from_spec hfst hend hl hr hcmp _ (lt_add_one_of_le le_rfl) (by omega) (by omega) (ordered_of_le (by omega))

end

lemma put_low_toList {k less : Int} (hless : first ≤ less) (hlk : less ≤ k) (hk : k ≤ last) (f : Int → E) :
    put_low first last (toList n f) k less (f k) = .ok (toList n (update (update f k (f less)) less (f k))) := by
  rw [put_low]
  split_ifs with hne
  · rw [read_toList hfst hend hless (by omega), ok_bind, write_toList hfst hend (by omega) hk, ok_bind,
      write_toList hfst hend hless (by omega)]
  · obtain rfl : k = less := not_not.mp hne
    rw [update_eq_self, update_eq_self]

lemma put_high_triple (hless : first ≤ less) (hlk : less ≤ k) (hkg : k < great) (hgreat : great ≤ last)
    (f : Int → E) : put_high first last true (toList n f) k less great (f k) =
      .ok (toList n (update (update (update f k (f less)) less (f great)) great (f k)), less + 1, great - 1) := by
  rw [put_high, if_pos rfl, read_toList hfst hend hless (by omega), ok_bind, write_toList hfst hend (by omega) (by
    omega), ok_bind, read_toList hfst hend (by omega) hgreat, ok_bind, write_toList hfst hend hless (by omega),
    ok_bind, write_toList hfst hend (by omega) hgreat, ok_bind, update_of_ne (by omega)]

lemma put_high_pair (hk : first ≤ k) (hkr : k ≤ last) (hgreat : first ≤ great) (hgr : great ≤ last)
    (f : Int → E) : put_high first last false (toList n f) k less great (f k) =
      .ok (toList n (update (update f k (f great)) great (f k)), less, great - 1) := by
  rw [put_high, if_neg Bool.false_ne_true, read_toList hfst hend hgreat hgr, ok_bind,
    write_toList hfst hend hk hkr, ok_bind, write_toList hfst hend hgreat hgr, ok_bind]

/-- The search ends at an element that is not larger, if there is one. -/
lemma skip_greater_spec (hstop : first ≤ stop) (hle : compare (f stop) pivot ≤ 0)
    (fuel : Nat) {great : Int} (hgreat : stop ≤ great) (hgr : great ≤ last) (hfuel : great - stop < fuel) :
    ∃ great', skip_greater compare first last pivot (toList n f) fuel great = .ok (great', compare (f great') pivot) ∧
      stop ≤ great' ∧ great' ≤ great ∧ compare (f great') pivot ≤ 0 ∧
      ∀ i, great' < i → i ≤ great → 0 < compare (f i) pivot := by
  induction fuel generalizing great with
  | zero => omega
  | succ fuel ih =>
    rw [skip_greater, read_toList hfst hend (by omega) hgr, ok_bind]
    by_cases hgt : compare (f great) pivot > 0
    · have hne : stop ≠ great := by
        rintro rfl
        omega
      obtain ⟨great', hskip, hstop', hle', hcomp, hbtw⟩ := @ih (great - 1) (by omega) (by omega) (by omega)
      refine ⟨great', by rw [if_pos hgt, hskip], hstop', by omega, hcomp, fun i hi hig => ?_⟩
      obtain rfl | hig : i = great ∨ i ≤ great - 1 := by omega
      · exact hgt
      · exact hbtw i hi hig
    · exact ⟨great, by rw [if_neg hgt], hgreat, le_rfl, by omega, fun i hi hig => by omega⟩

omit hfst hend in
lemma partition_equal_done (hfuel : 0 < fuel) {k great : Int} (hk : great < k) (less : Int)
    (a : List E) : partition_equal compare first last pivot fuel a k less great = .ok (a, less, great) := by
  obtain ⟨fuel, rfl⟩ := Nat.exists_eq_succ_of_ne_zero (by omega : fuel ≠ 0)
  rw [partition_equal, if_neg (by omega)]

omit hfst hend in
/-- An element that is equal to the pivot is not lost when a smaller one is put below `less`. -/
lemma exists_equal_swap_low (hlk : less ≤ k) (hk : k ≤ great)
    (hlt : compare (f k) pivot < 0) (hpivot : ∃ i, less ≤ i ∧ i ≤ great ∧ compare (f i) pivot = 0) :
    ∃ i, less + 1 ≤ i ∧ i ≤ great ∧ compare (update (update f k (f less)) less (f k) i) pivot = 0 := by
  obtain ⟨i, hi, hig, heq⟩ := hpivot
  have hne : i ≠ k := by
    rintro rfl
    omega
  obtain rfl | hi : i = less ∨ less < i := by omega
  · refine ⟨k, by omega, hk, ?_⟩
    rwa [update_of_ne (by omega), update_self]
  · refine ⟨i, by omega, hig, ?_⟩
    rwa [update_of_ne (by omega), update_of_ne hne]

/-- The partitioning by one pivot, which needs an element that is equal to it. -/
lemma partition_equal_spec (hlo : first ≤ lo) (hhi : hi ≤ last) (fuel : Nat) (hless : lo ≤ less)
    (hlk : less ≤ k) (hkg : k ≤ great + 1) (hgreat : great ≤ hi)
    (hfuel : great - k + 1 < fuel) (hpivot : ∃ i, less ≤ i ∧ i ≤ great ∧ compare (f i) pivot = 0)
    (hparts : Parts (compare · pivot < 0) (compare · pivot = 0) (0 ≤ compare · pivot) lo less k great hi f) :
    ∃ g less' great', partition_equal compare first last pivot fuel (toList n f) k less great =
        .ok (toList n g, less', great') ∧
      Partitioned (compare · pivot < 0) (compare · pivot = 0) (0 ≤ compare · pivot) lo hi f g less' great' := by
  induction fuel generalizing f k less great with
  | zero => omega
  | succ fuel ih =>
    by_cases hk : k ≤ great
    · rw [partition_equal, if_pos hk, read_toList hfst hend (by omega) (by omega), ok_bind]
      by_cases heq : compare (f k) pivot = 0
      · rw [if_pos heq]
        exact ih hless (by omega) (by omega) hgreat (by omega) hpivot (hparts.extend_mid heq)
      rw [if_neg heq]
      by_cases hlt : compare (f k) pivot < 0
      · rw [if_pos hlt, put_low_toList hfst hend (by omega) hlk (by omega), ok_bind]
        obtain ⟨g, less', great', hrun, hparted⟩ := ih (by omega) (by omega) (by omega) hgreat (by omega)
          (exists_equal_swap_low hlk hk hlt hpivot) (hparts.swap_low hlk hlt hk)
        exact ⟨g, less', great', hrun, hparted.after (rearranges_swap (by omega) ⟨hless, by omega⟩ f)⟩
      rw [if_neg hlt]
      -- When `k` is `less` the search ends at the element that is equal to the pivot, otherwise at `k - 1`.
      obtain ⟨stop, hstop, hkstop, hstopg, heqstop⟩ : ∃ i, less ≤ i ∧ k - 1 ≤ i ∧ i ≤ great ∧ compare (f i) pivot = 0 := by
        obtain rfl | hlk' : less = k ∨ less < k := by omega
        · obtain ⟨i, hi, hig, heqi⟩ := hpivot
          exact ⟨i, hi, by omega, hig, heqi⟩
        · exact ⟨k - 1, by omega, by omega, by omega, hparts.mid (k - 1) (by omega) (by omega)⟩
      obtain ⟨great', hskip, hstop', hgreat', hcomp, hbtw⟩ := skip_greater_spec hfst hend (by omega)
        (le_of_eq heqstop) ((great - first).toNat + 1) hstopg (by omega) (by omega)
      have hhigh := hparts.extend_high fun i hi hig => le_of_lt (hbtw i hi hig)
      have hne : great' ≠ k := by
        rintro rfl
        omega
      have hnestop : stop ≠ k := by
        rintro rfl
        exact heq heqstop
      rw [hskip, ok_bind]
      by_cases htriple : compare (f great') pivot < 0
      · have hnegreat : stop ≠ great' := by
          rintro rfl
          omega
        simp only [htriple, decide_true]
        rw [put_high_triple hfst hend (by omega) hlk (by omega) (by omega), ok_bind]
        have hpivot' : ∃ i, less + 1 ≤ i ∧ i ≤ great' - 1 ∧
            compare (update (update (update f k (f less)) less (f great')) great' (f k) i) pivot = 0 := by
          obtain rfl | hstop : stop = less ∨ less < stop := by omega
          · refine ⟨k, by omega, by omega, ?_⟩
            rwa [update_of_ne (by omega), update_of_ne (by omega), update_self]
          · refine ⟨stop, by omega, by omega, ?_⟩
            rwa [update_of_ne (by omega), update_of_ne (by omega), update_of_ne (by omega)]
        obtain ⟨g, less', great'', hrun, hparted⟩ := ih (by omega) (by omega) (by omega) (by omega) (by omega)
          hpivot' (hhigh.rotate hlk (by omega) htriple (by omega))
        exact ⟨g, less', great'', hrun, hparted.after
          (rearranges_rotate (by omega) ⟨hless, by omega⟩ (by omega) (by omega) (by omega) f)⟩
      have heqgreat : compare (f great') pivot = 0 := by omega
      have hswap := rearranges_swap (show lo ≤ k ∧ k ≤ hi by omega) (show lo ≤ great' ∧ great' ≤ hi by omega) f
      simp only [htriple, decide_false]
      rw [put_high_pair hfst hend (by omega) (by omega) (by omega) (by omega), ok_bind]
      obtain hlast | hkg' : great' = k - 1 ∨ k < great' := by omega
      · subst hlast
        refine ⟨_, less, k - 1 - 1, partition_equal_done (by omega) (show k - 1 - 1 < k + 1 by omega) less _, hswap,
          hless, by omega, by omega, ?_⟩
        have hparts' := hhigh.swap_last (by omega) (by omega) (le_of_eq heqgreat.symm) rfl
        rwa [show k - 1 - 1 + 1 = k - 1 by omega, show k - 1 - 1 = k - 2 by omega]
      · obtain ⟨g, less', great'', hrun, hparted⟩ := ih hless (by omega) (by omega) (by omega) (by omega)
          ⟨k, hlk, by omega, by rwa [update_of_ne (by omega), update_self]⟩ (hhigh.swap_high hlk (by omega) heqgreat hkg')
        exact ⟨g, less', great'', hrun, hparted.after hswap⟩
    · exact ⟨f, less, great, partition_equal_done (by omega) (by omega) less _, .refl f, hless, by omega, hgreat,
        by rwa [show great + 1 = k by omega]⟩

/-- The search ends at an element that does not belong to the third part, or below `k`. -/
lemma skip_high_spec {high : Int → Bool} {pivot2 : E} {k : Int} (hk : first ≤ k) (fuel : Nat) {great : Int}
    (hgreat : k ≤ great) (hgr : great ≤ last) (hfuel : great - k < fuel) :
    ∃ great' found, skip_high compare first last high pivot2 (toList n f) k fuel great = .ok (great', found) ∧
      great' ≤ great ∧ (∀ i, great' < i → i ≤ great → high (compare (f i) pivot2)) ∧
      (if found then k ≤ great' ∧ ¬high (compare (f great') pivot2) else great' = k - 1) := by
  induction fuel generalizing great with
  | zero => omega
  | succ fuel ih =>
    rw [skip_high, read_toList hfst hend (by omega) hgr, ok_bind]
    by_cases hhi : high (compare (f great) pivot2)
    · rw [if_pos hhi]
      have hstep : ∀ i, great - 1 < i → i ≤ great → high (compare (f i) pivot2) := fun i hi hig => by
        obtain rfl : i = great := by omega
        exact hhi
      by_cases hlast : great - 1 < k
      · exact ⟨great - 1, false, by rw [if_pos hlast], by omega, hstep, by rw [if_neg Bool.false_ne_true]; omega⟩
      obtain ⟨great', found, hskip, hle, hbtw, hfound⟩ := @ih (great - 1) (by omega) (by omega) (by omega)
      refine ⟨great', found, by rw [if_neg hlast, hskip], by omega, fun i hi hig => ?_, hfound⟩
      obtain hig | hig : i ≤ great - 1 ∨ great - 1 < i := by omega
      · exact hbtw i hi hig
      · exact hstep i hig (by omega)
    · exact ⟨great, true, by rw [if_neg hhi], le_rfl, fun i hi hig => by omega, by simp [hgreat, hhi]⟩

/-- What the tests of a partitioning by two pivots say about an element. -/
structure Tests (compare : E → E → Int) (low high : Int → Bool) (pivot1 pivot2 : E) (All Low Mid High : E → Prop) : Prop where
  of_low : ∀ x, All x → low (compare x pivot1) → Low x
  of_high : ∀ x, All x → high (compare x pivot2) → High x
  of_mid : ∀ x, All x → ¬low (compare x pivot1) → ¬high (compare x pivot2) → Mid x
  of_triple : ∀ x, All x → ¬high (compare x pivot2) → compare x pivot1 < 0 → Low x
  of_pair : ∀ x, All x → ¬high (compare x pivot2) → ¬compare x pivot1 < 0 → Mid x

omit hfst hend in
lemma partition_done (hfuel : 0 < fuel) {k great : Int} (hk : great < k) (less : Int) (a : List E) :
    partition compare first last low high pivot1 pivot2 fuel a k less great = .ok (a, less, great) := by
  obtain ⟨fuel, rfl⟩ := Nat.exists_eq_succ_of_ne_zero (by omega : fuel ≠ 0)
  rw [partition, if_neg (by omega)]

/-- The partitioning by two pivots. -/
lemma partition_spec {All Low Mid High : E → Prop}
    (htests : Tests compare low high pivot1 pivot2 All Low Mid High) (hlo : first ≤ lo) (hhi : hi ≤ last)
    (fuel : Nat) (hall : ∀ i, lo ≤ i → i ≤ hi → All (f i)) (hless : lo ≤ less)
    (hlk : less ≤ k) (hkg : k ≤ great + 1) (hgreat : great ≤ hi) (hfuel : great - k + 1 < fuel)
    (hparts : Parts Low Mid High lo less k great hi f) :
    ∃ g less' great', partition compare first last low high pivot1 pivot2 fuel (toList n f) k less great =
        .ok (toList n g, less', great') ∧ Partitioned Low Mid High lo hi f g less' great' := by
  induction fuel generalizing f k less great with
  | zero => omega
  | succ fuel ih =>
    by_cases hk : k ≤ great
    · have hallk : All (f k) := hall k (by omega) (by omega)
      have after : ∀ {f' : Int → E} {less' great' : Int}, Rearranges lo hi f f' → lo ≤ less' → less' ≤ k + 1 →
          k ≤ great' → great' ≤ great → Parts Low Mid High lo less' (k + 1) great' hi f' →
          ∃ g less'' great'', partition compare first last low high pivot1 pivot2 fuel (toList n f') (k + 1) less' great' =
            .ok (toList n g, less'', great'') ∧ Partitioned Low Mid High lo hi f g less'' great'' := by
        intro f' less' great' hf' hless' hlk' hkg' hgreat' hparts'
        obtain ⟨g, less'', great'', hrun, hparted⟩ := ih (hf'.forall_between (.inl ⟨le_rfl, le_rfl⟩) hall) hless'
          hlk' (by omega) (by omega) (by omega) hparts'
        exact ⟨g, less'', great'', hrun, hparted.after hf'⟩
      rw [partition, if_pos hk, read_toList hfst hend (by omega) (by omega), ok_bind]
      by_cases hlow : low (compare (f k) pivot1)
      · rw [if_pos hlow, put_low_toList hfst hend (by omega) hlk (by omega), ok_bind]
        exact after (rearranges_swap (by omega) ⟨hless, by omega⟩ f) (by omega) (by omega) hk le_rfl
          (hparts.swap_low hlk (htests.of_low _ hallk hlow) hk)
      rw [if_neg hlow]
      by_cases hhigh : high (compare (f k) pivot2)
      · have hhighk := htests.of_high _ hallk hhigh
        obtain ⟨great', found, hskip, hgreat', hbtw, hfound⟩ := skip_high_spec hfst hend (by omega)
          ((great - first).toNat + 1) hk (by omega) (by omega)
        have hle : k - 1 ≤ great' := by split_ifs at hfound <;> omega
        have hparts' := hparts.extend_high fun i hi hig =>
          htests.of_high _ (hall i (by omega) (by omega)) (hbtw i hi hig)
        rw [if_pos hhigh, hskip, ok_bind]
        cases found with
        | false =>
          rw [if_neg Bool.false_ne_true] at hfound
          refine ⟨f, less, great', partition_done (by omega) (by omega) less _, .refl f, hless, by omega, by omega, ?_⟩
          rwa [show great' + 1 = k by omega]
        | true =>
          obtain ⟨hkg', hnot⟩ := hfound
          have hne : great' ≠ k := by
            rintro rfl
            exact hnot hhigh
          have hallg : All (f great') := hall great' (by omega) (by omega)
          simp only [if_true]
          rw [read_toList hfst hend (by omega) (by omega), ok_bind]
          by_cases htriple : compare (f great') pivot1 < 0
          · simp only [htriple, decide_true]
            rw [put_high_triple hfst hend (by omega) hlk (by omega) (by omega), ok_bind]
            dsimp only
            exact after (rearranges_rotate (by omega) ⟨hless, by omega⟩ (by omega) (by omega) (by omega) f)
              (by omega) (by omega) (by omega) (by omega)
              (hparts'.rotate hlk hhighk (htests.of_triple _ hallg hnot htriple) (by omega))
          · simp only [htriple, decide_false]
            rw [put_high_pair hfst hend (by omega) (by omega) (by omega) (by omega), ok_bind]
            dsimp only
            exact after (rearranges_swap (by omega) (by omega) f) hless (by omega) (by omega) (by omega)
              (hparts'.swap_high hlk hhighk (htests.of_pair _ hallg hnot htriple) (by omega))
      · rw [if_neg hhigh]
        exact after (.refl f) hless (by omega) hk le_rfl (hparts.extend_mid (htests.of_mid _ hallk hlow hhigh))
    · exact ⟨f, less, great, partition_done (by omega) (by omega) less _, .refl f, hless, by omega, hgreat,
        by rwa [show great + 1 = k by omega]⟩

variable (hstop : compare (f stop) pivot ≠ 0)
include hstop

/-- The search ends at an element that is not equal to the pivot, if there is one. -/
lemma skip_equal_up (hstopr : stop ≤ last) (fuel : Nat) (hi : first ≤ i) (his : i ≤ stop) (hfuel : stop - i < fuel) :
    ∃ i', skip_equal compare first last pivot (toList n f) 1 fuel i = .ok i' ∧ i ≤ i' ∧ i' ≤ stop ∧
      ∀ j, i ≤ j → j < i' → compare (f j) pivot = 0 := by
  induction fuel generalizing i with
  | zero => omega
  | succ fuel ih =>
    rw [skip_equal, read_toList hfst hend hi (by omega), ok_bind]
    by_cases heq : compare (f i) pivot = 0
    · have hne : i ≠ stop := by
        rintro rfl
        exact hstop heq
      obtain ⟨i', hskip, hle, hle', hbtw⟩ := @ih (i + 1) (by omega) (by omega) (by omega)
      refine ⟨i', by rw [if_pos heq, hskip], by omega, hle', fun j hj hji => ?_⟩
      obtain rfl | hj : j = i ∨ i + 1 ≤ j := by omega
      · exact heq
      · exact hbtw j hj hji
    · exact ⟨i, by rw [if_neg heq], le_rfl, his, fun j hj hji => by omega⟩

lemma skip_equal_down (hstopl : first ≤ stop) (fuel : Nat) (hi : i ≤ last)
    (his : stop ≤ i) (hfuel : i - stop < fuel) : ∃ i', skip_equal compare first last pivot (toList n f) (-1) fuel i =
    .ok i' ∧ stop ≤ i' ∧ i' ≤ i ∧ ∀ j, i' < j → j ≤ i → compare (f j) pivot = 0 := by
  induction fuel generalizing i with
  | zero => omega
  | succ fuel ih =>
    rw [skip_equal, read_toList hfst hend (by omega) hi, ok_bind]
    by_cases heq : compare (f i) pivot = 0
    · have hne : i ≠ stop := by
        rintro rfl
        exact hstop heq
      obtain ⟨i', hskip, hle, hle', hbtw⟩ := @ih (i + -1) (by omega) (by omega) (by omega)
      refine ⟨i', by rw [if_pos heq, hskip], hle, by omega, fun j hj hji => ?_⟩
      obtain rfl | hji : j = i ∨ j ≤ i + -1 := by omega
      · exact heq
      · exact hbtw j hj hji
    · exact ⟨i, by rw [if_neg heq], his, le_rfl, fun j hj hji => by omega⟩

end dart.internal
