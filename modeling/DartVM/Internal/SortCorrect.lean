import DartVM.Internal.SortLoops

namespace dart.internal
open Function List Int
open dart.rearrange
open dart.sorted_map (TotalPreorder)
variable {E : Type} {compare : E → E → Int}

section
variable (hcmp : TotalPreorder compare) (x y : E)
include hcmp

lemma order_le : compare (order compare x y).1 (order compare x y).2 ≤ 0 := by
  have hflip := hcmp.flip y x
  rw [order]
  split_ifs <;> dsimp only <;> omega

lemma order_fst_le_left : compare (order compare x y).1 x ≤ 0 := by
  have hflip := hcmp.flip y x
  have hrefl := hcmp.refl x
  rw [order]
  split_ifs <;> dsimp only <;> omega

lemma order_fst_le_right : compare (order compare x y).1 y ≤ 0 := by
  have hrefl := hcmp.refl y
  rw [order]
  split_ifs <;> dsimp only <;> omega

lemma le_order_snd_left : compare x (order compare x y).2 ≤ 0 := by
  have hrefl := hcmp.refl x
  rw [order]
  split_ifs <;> dsimp only <;> omega

lemma le_order_snd_right : compare y (order compare x y).2 ≤ 0 := by
  have hflip := hcmp.flip y x
  have hrefl := hcmp.refl y
  rw [order]
  split_ifs <;> dsimp only <;> omega

variable {x y} {z : E}

omit hcmp in
lemma le_order_fst (hx : compare z x ≤ 0) (hy : compare z y ≤ 0) : compare z (order compare x y).1 ≤ 0 := by
  rw [order]
  split_ifs <;> assumption

omit hcmp in
lemma order_snd_le (hx : compare x z ≤ 0) (hy : compare y z ≤ 0) : compare (order compare x y).2 z ≤ 0 := by
  rw [order]
  split_ifs <;> assumption

end

lemma order_count (compare : E → E → Int) [DecidableEq E] (x y z : E) :
    count z [(order compare x y).1] + count z [(order compare x y).2] = count z [x] + count z [y] := by
  rw [order]
  split_ifs
  · exact Nat.add_comm _ _
  · rfl

/-- The network rearranges five elements, and the three in the middle are in order. -/
lemma sort_five_spec (hcmp : TotalPreorder compare) (el1 el2 el3 el4 el5 : E) :
    ∃ y1 y2 y3 y4 y5, sort_five compare el1 el2 el3 el4 el5 = (y1, y2, y3, y4, y5) ∧
      [el1, el3, el5, el2, el4].Perm [y1, y3, y5, y2, y4] ∧ compare y2 y3 ≤ 0 ∧ compare y3 y4 ≤ 0 := by
  classical
  let a := order compare el1 el2
  let b := order compare el4 el5
  let c := order compare a.1 el3
  let d := order compare a.2 c.2
  let e := order compare c.1 b.1
  let f := order compare d.2 e.2
  let g := order compare d.1 b.2
  let h := order compare g.1 f.1
  let k := order compare f.2 g.2
  refine ⟨e.1, h.1, h.2, k.1, k.2, rfl, List.perm_iff_count.mpr fun z => ?_, order_le hcmp _ _, ?_⟩
  · have hcnt : ∀ x1 x2 x3 x4 x5 : E, count z [x1, x2, x3, x4, x5] = count z [x1] + count z [x2] +
        count z [x3] + count z [x4] + count z [x5] := fun x1 x2 x3 x4 x5 => by
      simp only [count_cons, count_nil]
      omega
    have ha : count z [a.1] + count z [a.2] = _ := order_count compare el1 el2 z
    have hb : count z [b.1] + count z [b.2] = _ := order_count compare el4 el5 z
    have hc : count z [c.1] + count z [c.2] = _ := order_count compare a.1 el3 z
    have hd : count z [d.1] + count z [d.2] = _ := order_count compare a.2 c.2 z
    have he : count z [e.1] + count z [e.2] = _ := order_count compare c.1 b.1 z
    have hf : count z [f.1] + count z [f.2] = _ := order_count compare d.2 e.2 z
    have hg : count z [g.1] + count z [g.2] = _ := order_count compare d.1 b.2 z
    have hh : count z [h.1] + count z [h.2] = _ := order_count compare g.1 f.1 z
    have hk : count z [k.1] + count z [k.2] = _ := order_count compare f.2 g.2 z
    rw [hcnt, hcnt]
    omega
  · have hcd : compare c.1 d.1 ≤ 0 := le_order_fst
      (hcmp.trans _ _ _ (order_fst_le_left hcmp a.1 el3) (order_le hcmp el1 el2)) (order_le hcmp a.1 el3)
    have hbg : compare b.1 g.2 ≤ 0 := hcmp.trans _ _ _ (order_le hcmp el4 el5) (le_order_snd_right hcmp d.1 b.2)
    have heg : compare e.2 g.2 ≤ 0 := order_snd_le (hcmp.trans _ _ _ hcd (le_order_snd_left hcmp d.1 b.2)) hbg
    have hfg : compare f.1 g.2 ≤ 0 := hcmp.trans _ _ _ (order_fst_le_right hcmp d.2 e.2) heg
    have hgf : compare g.1 f.2 ≤ 0 := hcmp.trans _ _ _ (order_fst_le_left hcmp d.1 b.2)
      (hcmp.trans _ _ _ (order_le hcmp a.2 c.2) (le_order_snd_left hcmp d.2 e.2))
    exact order_snd_le (le_order_fst hgf (order_le hcmp d.1 b.2)) (le_order_fst (order_le hcmp d.2 e.2) hfg)

section
variable {left right : Int}

lemma indices_between (h : right - left > insertion_sort_threshold) :
    left < index1 left right ∧ index1 left right < index2 left right ∧ index2 left right < index3 left right ∧
      index3 left right < index4 left right ∧ index4 left right < index5 left right ∧ index5 left right < right := by
  simp only [insertion_sort_threshold, index1, index2, index3, index4, index5, sixth] at h ⊢
  omega

variable {n : Nat} {first last left right : Int} (hfst : 0 ≤ first) (hend : last < n) (hl : first ≤ left)
  (hr : right ≤ last) (hcmp : TotalPreorder compare)
  {pivot1 pivot2 : E} {less great : Int} {f : Int → E}

include hfst hend hl hr hcmp

/-- The list with the pivots at its ends is a rearrangement of the one before. -/
lemma choose_pivots_spec (hlong : right - left > insertion_sort_threshold) (f : Int → E) :
    ∃ g pivot1 pivot2, choose_pivots compare first last left right (toList n f) = .ok (toList n g, pivot1, pivot2) ∧
      Rearranges left right f (update (update g left pivot1) right pivot2) ∧
      ∃ i, left < i ∧ i < right ∧ compare pivot1 (g i) ≤ 0 ∧ compare (g i) pivot2 ≤ 0 := by
  obtain ⟨h1, h2, h3, h4, h5, h6⟩ := indices_between hlong
  rw [choose_pivots]
  generalize index1 left right = i1 at *
  generalize index2 left right = i2 at *
  generalize index3 left right = i3 at *
  generalize index4 left right = i4 at *
  generalize index5 left right = i5 at *
  obtain ⟨y1, y2, y3, y4, y5, hfive, hperm, h23, h34⟩ := sort_five_spec hcmp (f i1) (f i2) (f i3) (f i4) (f i5)
  simp (disch := omega) only [read_toList hfst hend, write_toList hfst hend, ok_bind, hfive]
  refine ⟨_, y2, y4, rfl, ?_, i3, by omega, by omega, ?_, ?_⟩
  · have hnodup : [i1, i3, i5, i2, i4].Nodup := by
      simp only [nodup_cons, mem_cons, not_mem_nil, or_false, not_or, nodup_nil, not_false_eq_true, and_true]
      omega
    have hin : ∀ i ∈ [i1, i3, i5, i2, i4], left ≤ i ∧ i ≤ right := by
      simp only [mem_cons, not_mem_nil, or_false]
      omega
    have hnet := rearranges_putAll hperm rfl hnodup hin f
    simp only [putAll, update_eq_self] at hnet
    have hmove := rearranges_move_two (hin i2 (by simp)) (show left ≤ left ∧ left ≤ right by omega) (hin i4 (by simp))
      (show left ≤ right ∧ right ≤ right by omega) (by omega) (by omega) (by omega) (by omega)
      (update (update (update f i1 y1) i3 y3) i5 y5) y2 y4
    rw [update_comm (show left ≠ i4 by omega)] at hmove
    rw [update_of_ne (show right ≠ i2 by omega)]
    exact hnet.trans hmove
  · simpa (disch := omega) only [update_of_ne, update_self]
  · simpa (disch := omega) only [update_of_ne, update_self]

/-- The partitioning by one or by two pivots. -/
lemma partition_by_pivots_spec {i : Int} (hi : left < i) (hir : i < right)
    (h1 : compare pivot1 (f i) ≤ 0) (h2 : compare (f i) pivot2 ≤ 0) :
    ∃ g less great, partition_by_pivots compare first last left right pivot1 pivot2 (toList n f) =
        .ok (toList n g, less, great) ∧
      Partitioned (compare · pivot1 ≤ 0) (fun x => compare pivot1 x ≤ 0 ∧ compare x pivot2 ≤ 0) (compare pivot2 · ≤ 0)
        (left + 1) (right - 1) f g less great := by
  have hflip := fun x y => hcmp.flip x y
  by_cases heq : compare pivot1 pivot2 = 0
  · have heqi : compare (f i) pivot1 = 0 := by
      have hle := hcmp.trans _ _ _ h2 (le_of_eq (hcmp.symm heq))
      have := hflip (f i) pivot1
      omega
    obtain ⟨g, less, great, hrun, hparted⟩ := partition_equal_spec hfst hend (by omega) (by omega)
      ((right - left).toNat + 1) (le_refl (left + 1)) (le_refl (left + 1)) (by omega) (le_refl (right - 1))
      (by omega) ⟨i, by omega, by omega, heqi⟩ (parts_start _ _ _ _ _ f)
    refine ⟨g, less, great, by rw [partition_by_pivots, if_pos heq, hrun],
      hparted.imp (fun x => le_of_lt) (fun x hx => ⟨?_, ?_⟩) fun x hx => ?_⟩
    · exact le_of_eq (hcmp.symm hx)
    · exact hcmp.trans _ _ _ (le_of_eq hx) (le_of_eq heq)
    · refine hcmp.trans _ pivot1 _ (le_of_eq (hcmp.symm heq)) ?_
      have := hflip x pivot1
      omega
  · have htests : Tests compare (· < 0) (· > 0) pivot1 pivot2 (fun _ => True) (compare · pivot1 ≤ 0)
        (fun x => compare pivot1 x ≤ 0 ∧ compare x pivot2 ≤ 0) (compare pivot2 · ≤ 0) := by
      have hge : ∀ x, ¬compare x pivot1 < 0 → compare pivot1 x ≤ 0 := fun x hx => by
        have := hflip x pivot1
        omega
      have hgt : ∀ x, compare x pivot2 > 0 → compare pivot2 x ≤ 0 := fun x hx => by
        have := hflip pivot2 x
        omega
      constructor <;> simp only [decide_eq_true_eq, true_implies]
      · exact fun x hx => le_of_lt hx
      · exact hgt
      · exact fun x hlo hhi => ⟨hge x hlo, by omega⟩
      · exact fun x _ hlo => le_of_lt hlo
      · exact fun x hhi hlo => ⟨hge x hlo, by omega⟩
    obtain ⟨g, less, great, hrun, hparted⟩ := partition_spec hfst hend htests (by omega) (by omega)
      ((right - left).toNat + 1) (fun _ _ _ => trivial) (le_refl (left + 1)) (le_refl (left + 1)) (by omega)
      (le_refl (right - 1)) (by omega) (parts_start _ _ _ _ _ f)
    exact ⟨g, less, great, by rw [partition_by_pivots, if_neg heq, hrun], hparted⟩

omit hcmp in
lemma place_pivots_spec {f g : Int → E}
    (hparted : Partitioned (compare · pivot1 ≤ 0) (fun x => compare pivot1 x ≤ 0 ∧ compare x pivot2 ≤ 0)
      (compare pivot2 · ≤ 0) (left + 1) (right - 1) f g less great) :
    ∃ h, place_pivots first last left right pivot1 pivot2 (toList n g) less great = .ok (toList n h) ∧
      Rearranges left right (update (update g left pivot1) right pivot2) h ∧
      Pivoted compare pivot1 pivot2 left less great right h := by
  obtain ⟨-, hlo, hless, hgreat, hparts⟩ := hparted
  have hmove := rearranges_move_two (show left ≤ left ∧ left ≤ right by omega)
    (show left ≤ less - 1 ∧ less - 1 ≤ right by omega) (show left ≤ right ∧ right ≤ right by omega)
    (show left ≤ great + 1 ∧ great + 1 ≤ right by omega) (by omega) (by omega) (by omega) (by omega) g pivot1 pivot2
  refine ⟨_, ?_, hmove, ?_⟩
  · rw [place_pivots, read_toList hfst hend (by omega) (by omega), ok_bind, write_toList hfst hend (by omega) (by
      omega), ok_bind, write_toList hfst hend (by omega) (by omega), ok_bind, read_toList hfst hend (by omega) (by
      omega), ok_bind, write_toList hfst hend (by omega) (by omega), ok_bind, write_toList hfst hend (by omega) (by
      omega), update_of_ne (show great + 1 ≠ less - 1 by omega), update_of_ne (show great + 1 ≠ left by omega)]
  · refine ⟨fun i hi hil => ?_, ?_, fun i hi hig => ?_, ?_, fun i hi hir => ?_, by omega, hless, by omega⟩
    · simp (disch := omega) only [update_of_ne]
      obtain rfl | hi : i = left ∨ left < i := by omega
      · rw [update_self]
        exact hparts.low (less - 1) (by omega) (by omega)
      · rw [update_of_ne (by omega)]
        exact hparts.low i (by omega) (by omega)
    · rw [update_of_ne (by omega), update_of_ne (by omega), update_self]
    · simp (disch := omega) only [update_of_ne]
      exact hparts.mid i hi (by omega)
    · rw [update_self]
    · rw [update_of_ne (by omega)]
      obtain rfl | hir : i = right ∨ i < right := by omega
      · rw [update_self]
        exact hparts.high (great + 1) (by omega) (by omega)
      · simp (disch := omega) only [update_of_ne]
        exact hparts.high i (by omega) (by omega)

/-- What is removed from the middle is equal to a pivot. -/
lemma shrink_middle_spec (hlt : compare pivot1 pivot2 < 0)
    (hpiv : Pivoted compare pivot1 pivot2 left less great right f) :
    ∃ g less' great', shrink_middle compare first last left right pivot1 pivot2 (toList n f) less great =
        .ok (toList n g, less', great') ∧ Rearranges less great f g ∧ less ≤ less' ∧ less' ≤ great' + 1 ∧ great' ≤ great ∧
      (∀ i, less ≤ i → i < less' → compare (g i) pivot1 = 0) ∧ (∀ i, great' < i → i ≤ great → compare (g i) pivot2 = 0) := by
  obtain ⟨-, hat1, hmid, hat2, -, hlo, hless, hgreat⟩ := hpiv
  rw [shrink_middle]
  split_ifs with hbig
  · have hgt : 0 < compare pivot2 pivot1 := (hcmp.flip _ _).mp hlt
    have hstop1 : compare (f (great + 1)) pivot1 ≠ 0 := by
      rw [hat2]
      omega
    obtain ⟨less1, hskip1, hle1, hle1', heq1⟩ := skip_equal_up hfst hend hstop1 (by omega) ((right - left).toNat + 1)
      (by omega) hless (by omega)
    -- The element before the first part is the pivot or equal to it.
    have hstop2 : compare (f (less1 - 1)) pivot2 ≠ 0 := by
      obtain rfl | hlt1 : less1 = less ∨ less < less1 := by omega
      · rw [hat1]
        omega
      have := heq1 (less1 - 1) (by omega) (by omega)
      have := hcmp.lt_of_le_of_lt (le_of_eq this) hlt
      omega
    obtain ⟨great1, hskip2, hge1, hge1', heq2⟩ := skip_equal_down hfst hend hstop2 (by omega) ((right - left).toNat + 1)
      (show great ≤ last by omega) (by omega) (by omega)
    have htests : Tests compare (· = 0) (· = 0) pivot1 pivot2 (fun x => compare pivot1 x ≤ 0 ∧ compare x pivot2 ≤ 0)
        (compare · pivot1 = 0) (fun _ => True) (compare · pivot2 = 0) := by
      refine ⟨fun x _ hx => of_decide_eq_true hx, fun x _ hx => of_decide_eq_true hx, fun _ _ _ _ => trivial,
        fun x hx _ hlt => ?_, fun _ _ _ _ => trivial⟩
      have := (hcmp.flip _ _).mp hlt
      omega
    obtain ⟨g, less2, great2, hrun, hmov, hlo2, hless2, hgreat2, hparts⟩ := partition_spec hfst hend htests
      (show first ≤ less1 by omega) (show great1 ≤ last by omega) ((right - left).toNat + 1)
      (fun i hi hig => hmid i (by omega) (by omega)) le_rfl le_rfl (by omega) le_rfl
      (by omega) (parts_start _ _ _ _ _ f)
    refine ⟨g, less2, great2, ?_, hmov.mono hle1 hge1', by omega, hless2, by omega, fun i hi hil => ?_,
      fun i hi hig => ?_⟩
    · dsimp only
      rw [hskip1, ok_bind, hskip2, ok_bind, hrun]
    · obtain hi' | hi' : i < less1 ∨ less1 ≤ i := by omega
      · rw [hmov.eq_outside (by omega)]
        exact heq1 i hi hi'
      · exact hparts.low i hi' hil
    · obtain hi' | hi' : great1 < i ∨ i ≤ great1 := by omega
      · rw [hmov.eq_outside (by omega)]
        exact heq2 i hi' hig
      · exact hparts.high i hi hi'
  · exact ⟨f, less, great, rfl, .refl f, le_rfl, hless, le_rfl, fun i hi hil => by omega, fun i hi hig => by omega⟩

/-- What sorts every shorter part sorts the whole. -/
lemma dual_pivot_quicksort_spec (hlong : right - left > insertion_sort_threshold)
    {do_sort : List E → Int → Int → Checked (List E)}
    (hdo_sort : ∀ (f : Int → E) (left' right' : Int), left ≤ left' → right' ≤ right → right' - left' < right - left →
      ∃ g, do_sort (toList n f) left' right' = .ok (toList n g) ∧ Rearranges left' right' f g ∧
        Ordered compare left' right' g)
    (f : Int → E) : ∃ g, dual_pivot_quicksort compare first last left right do_sort (toList n f) = .ok (toList n g) ∧
    Rearranges left right f g ∧ Ordered compare left right g := by
  obtain ⟨f1, pivot1, pivot2, hchoose, hf1, i, hi, hir, h1, h2⟩ := choose_pivots_spec hfst hend hl hr hcmp hlong f
  have hle : compare pivot1 pivot2 ≤ 0 := hcmp.trans _ _ _ h1 h2
  obtain ⟨f2, less, great, hpartition, hparted⟩ := partition_by_pivots_spec hfst hend hl hr hcmp hi hir h1 h2
  obtain ⟨f3, hplace, hf3, hpiv⟩ := place_pivots_spec hfst hend hl hr hparted
  have hlo := hpiv.lo_lt
  have hless := hpiv.less_le
  have hgreat := hpiv.great_lt
  obtain ⟨f4, hsort4, hf4, hord4⟩ := hdo_sort f3 left (less - 2) le_rfl (by omega) (by omega)
  obtain ⟨f5, hsort5, hf5, hord5⟩ := hdo_sort f4 (great + 2) right (by omega) le_rfl (by omega)
  have hpiv5 := (hpiv.sort (.inl ⟨rfl, rfl⟩) hf4).sort (.inr (.inr ⟨rfl, rfl⟩)) hf5
  have hord4' : Ordered compare left (less - 2) f5 := hord4.congr fun i hi hil => hf5.eq_outside (by omega)
  have hf2 := (hparted.rearranges.update_outside (show ¬(left + 1 ≤ left ∧ left ≤ right - 1) by omega) pivot1).update_outside
    (show ¬(left + 1 ≤ right ∧ right ≤ right - 1) by omega) pivot2
  have hf5' : Rearranges left right f f5 := (hf1.trans (hf2.mono (by omega) (by omega))).trans
      ((hf3.trans (hf4.mono le_rfl (by omega))).trans (hf5.mono (by omega) le_rfl))
  simp only [dual_pivot_quicksort, hlong, decide_true, check_true, ok_bind, hchoose, hpartition, hplace, hsort4, hsort5]
  by_cases heq : compare pivot1 pivot2 = 0
  · have hmid : Ordered compare less great f5 := fun i j hi hij hj =>
      hcmp.trans _ pivot2 _ (hpiv5.mid i hi (by omega)).2
        (hcmp.trans _ pivot1 _ (le_of_eq (hcmp.symm heq)) (hpiv5.mid j (by omega) hj).1)
    exact ⟨f5, by rw [if_pos heq], hf5', hpiv5.ordered hcmp hle hord4' hmid hord5⟩
  obtain ⟨f6, less', great', hshrink, hf6, hless', hlg', hgreat', hequal1, hequal2⟩ :=
    shrink_middle_spec hfst hend hl hr hcmp (by omega) hpiv5
  obtain ⟨f7, hsort7, hf7, hord7⟩ := hdo_sort f6 less' great' (by omega) (by omega) (by omega)
  have hf7' : Rearranges less great f5 f7 := hf6.trans (hf7.mono hless' hgreat')
  have hpiv7 := hpiv5.sort (.inr (.inl ⟨rfl, rfl⟩)) hf7'
  have hmid : Ordered compare less great f7 := by
    refine hpiv7.ordered_mid hcmp (fun i hi hil => ?_) (fun i hi hig => ?_) hord7
    · rw [hf7.eq_outside (by omega)]
      exact hequal1 i hi hil
    · rw [hf7.eq_outside (by omega)]
      exact hequal2 i hi hig
  refine ⟨f7, by rw [if_neg heq, hshrink, ok_bind, hsort7], hf5'.trans (hf7'.mono (by omega) (by omega)),
    hpiv7.ordered hcmp hle (hord4'.congr fun i hi hil => hf7'.eq_outside (by omega)) hmid
      (hord5.congr fun i hi hil => hf7'.eq_outside (by omega))⟩

omit hl hr in
lemma do_sort_spec (fuel : Nat) (f : Int → E) {left right : Int} (hl : first ≤ left) (hr : right ≤ last)
    (hpos : 0 < fuel) (hfuel : right - left + 1 < fuel) : ∃ g, do_sort compare first last fuel (toList n f) left right =
    .ok (toList n g) ∧ Rearranges left right f g ∧ Ordered compare left right g := by
  induction fuel generalizing f left right with
  | zero => omega
  | succ fuel ih =>
    rw [do_sort]
    split_ifs with hshort
    · exact insertion_sort_spec hfst hend hl hr hcmp f
    · have hlong : right - left > insertion_sort_threshold := by omega
      have hthreshold : insertion_sort_threshold = 32 := rfl
      exact dual_pivot_quicksort_spec hfst hend hl hr hcmp hlong
        (fun f left' right' hl' hr' hlt => ih f (by omega) (by omega) (by omega) (by omega)) f

end

/-- A valid range is sorted and nothing else is accessed: an access outside would not have a result. -/
theorem sort_range_correct (hcompare : TotalPreorder compare) (a : List E) (from_index to_index : Int) :
    if 0 ≤ from_index ∧ from_index ≤ to_index ∧ to_index ≤ a.length then
      ∃ b, sort_range compare a from_index to_index = .ok (some b) ∧ b.length = a.length ∧
        (∀ i : Nat, ¬(from_index ≤ i ∧ i < to_index) → b[i]? = a[i]?) ∧
        (segment from_index to_index b).Perm (segment from_index to_index a) ∧
        (segment from_index to_index b).Pairwise fun x y => compare x y ≤ 0
    else sort_range compare a from_index to_index = .ok none := by
  split_ifs with hok
  · obtain ⟨hfrom, hle, hto⟩ := hok
    rw [sort_range, if_neg (by omega)]
    by_cases hnil : a = []
    · subst hnil
      obtain rfl : to_index = 0 := by
        rw [length_nil] at hto
        omega
      obtain rfl : from_index = 0 := by omega
      exact ⟨[], rfl, rfl, fun _ _ => rfl, .refl _, .nil⟩
    obtain ⟨f, hf⟩ := exists_toList_eq a hnil
    generalize a.length = n at *
    subst hf
    obtain ⟨g, hrun, hmov, hord⟩ := do_sort_spec hfrom (show to_index - 1 < n by omega) hcompare
      ((to_index - from_index).toNat + 1) f le_rfl le_rfl (by omega) (by omega)
    rw [hrun]
    refine ⟨toList n g, rfl, by simp, fun i hi => ?_, hmov.perm_segment hfrom hle hto,
      hord.pairwise_segment hfrom hle hto⟩
    exact hmov.getElem?_toList_eq (by omega) n
  · rw [sort_range, if_pos (by omega)]

theorem sort_range_correct_remainders :
    ∃ b, sort_range (· - ·) ((List.range 40).map fun i : Nat => (i : Int) * 7 % 11) 2 38 = .ok (some b) ∧
      (segment 2 38 b).Pairwise fun x y => x - y ≤ 0 := by
  have hcmp : TotalPreorder fun x y : Int => x - y := ⟨by omega, by omega⟩
  have h := sort_range_correct hcmp ((List.range 40).map fun i : Nat => (i : Int) * 7 % 11) 2 38
  obtain ⟨b, hrun, -, -, -, hsort⟩ := h
  exact ⟨b, hrun, hsort⟩

end dart.internal
