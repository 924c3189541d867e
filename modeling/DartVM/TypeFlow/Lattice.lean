import DartVM.TypeFlow.Values

namespace dart.type_flow
open dart.sorted_merge ConcreteType TFType
variable {C R A : Type} {h : TypeHierarchy C R} {types : List (ConcreteType C R A)}

/-- An instance that the program can create. -/
def Instance.Exists (h : TypeHierarchy C R) (o : Instance C R A) : Prop := (Value.object o).Exists h

/-- The concrete types of a set type, or of a list from which one is made. -/
def ListWellFormed (h : TypeHierarchy C R) (types : List (ConcreteType C R A)) : Prop :=
  Sorted (fun type => h.id type.cls) types ∧ ∀ type ∈ types, type.WellFormed h

lemma of_list_wellFormed (hwf : ListWellFormed h types) : (of_list types).WellFormed h := by
  match types with
  | [] => trivial
  | [type] => exact hwf.2 type List.mem_cons_self
  | s :: t :: types => exact ⟨by simp, hwf.1, hwf.2⟩

/-- The type of a list is the union of its concrete types. -/
lemma of_list_contains {o : Instance C R A} : (of_list types).Contains h o ↔ ∃ type ∈ types, type.Denotes h o := by
  match types with
  | [] => simp [of_list, Contains]
  | [type] => simp [of_list, Contains]
  | s :: t :: types => rfl

lemma of_list_eq_set (hlen : 2 ≤ types.length) : of_list types = .set types := by
  match types with
  | s :: t :: types => rfl

section
variable {s t r : TFType C R A} {same : Identity C R A}

/-- A well-formed type that contains the instances of both types. -/
def Unites (h : TypeHierarchy C R) (s t r : TFType C R A) : Prop :=
  r.WellFormed h ∧ ∀ o, o.Exists h → s.Contains h o ∨ t.Contains h o → r.Contains h o

lemma Unites.symm (hr : Unites h s t r) : Unites h t s r := ⟨hr.1, fun o ho hst => hr.2 o ho hst.symm⟩

lemma Unites.left (hs : s.WellFormed h) (hsub : ∀ o, o.Exists h → t.Contains h o → s.Contains h o) : Unites h s t s :=
  ⟨hs, fun o ho hst => hst.elim id (hsub o ho)⟩

lemma Unites.right (ht : t.WellFormed h) (hsub : ∀ o, o.Exists h → s.Contains h o → t.Contains h o) : Unites h s t t :=
  (Unites.left ht hsub).symm

lemma Unites.any (s t : TFType C R A) : Unites h s t .any := ⟨trivial, fun _ _ _ => trivial⟩

/-- The shortcut for identical types. -/
lemma Unites.identical (hsame : same.identical s t = true) (hs : s.WellFormed h) : Unites h s t s :=
  .left hs fun _ _ ho => same.eq_of_identical s t hsame ▸ ho

/-- A well-formed type that contains the common instances of two types. -/
def Meets (h : TypeHierarchy C R) (s t r : TFType C R A) : Prop :=
  r.WellFormed h ∧ ∀ o, o.Exists h → s.Contains h o → t.Contains h o → r.Contains h o

lemma Meets.symm (hr : Meets h s t r) : Meets h t s r := ⟨hr.1, fun o ho ht hs => hr.2 o ho hs ht⟩

lemma Meets.left (hs : s.WellFormed h) : Meets h s t s := ⟨hs, fun _ _ hso _ => hso⟩

lemma Meets.right (ht : t.WellFormed h) : Meets h s t t := ⟨ht, fun _ _ _ hto => hto⟩

lemma Meets.empty (hdisj : ∀ o, o.Exists h → s.Contains h o → ¬t.Contains h o) : Meets h s t .empty :=
  ⟨trivial, fun o ho hso hto => hdisj o ho hso hto⟩

end

variable [DecidableEq C]

omit [DecidableEq C] in
/-- The classes of a specialized cone are sorted by their ids. -/
lemma sorted_mergeSort {subs : List C} (hnodup : subs.Nodup) :
    ListWellFormed h ((subs.map ConcreteType.of_class : List (ConcreteType C R A)).mergeSort (id_le h)) := by
  refine ⟨?_, fun type hty => ?_⟩
  · have hsort : ((subs.map of_class : List (ConcreteType C R A)).mergeSort (id_le h)).Pairwise
        fun s t => id_le h s t = true := by
      refine List.pairwise_mergeSort (fun a b c hab hbc => ?_) (fun a b => ?_) _
      · exact decide_eq_true ((of_decide_eq_true hab).trans (of_decide_eq_true hbc))
      · simp only [id_le, Bool.or_eq_true, decide_eq_true_iff]
        omega
    have hne : ((subs.map of_class : List (ConcreteType C R A)).mergeSort (id_le h)).Pairwise
        fun s t => h.id s.cls ≠ h.id t.cls := by
      refine (List.mergeSort_perm _ _).pairwise_iff (Ne.symm) |>.mpr ?_
      rw [List.pairwise_map]
      exact hnodup.imp fun hne heq => hne (h.id_injective heq)
    exact (hsort.and hne).imp fun hst => Nat.lt_of_le_of_ne (of_decide_eq_true hst.1) hst.2
  · rw [List.mem_mergeSort] at hty
    obtain ⟨sub, -, rfl⟩ := List.mem_map.mp hty
    exact of_class_wellFormed sub

/-- The specialization of a cone: a well-formed type that is not a cone and contains the allocated instances. -/
lemma specialized_cone_type_spec (cls : C) : ∃ types : List (ConcreteType C R A),
    specialized_cone_type h cls = of_list types ∧ ListWellFormed h types ∧
      ∀ o, o.Exists h → cls ∈ h.supertypes o.cls → ∃ type ∈ types, type.Denotes h o := by
  have hmem : ∀ o : Instance C R A, o.Exists h → cls ∈ h.supertypes o.cls → o.cls ∈ allocated_subtypes h cls :=
    fun o ho hcls => mem_allocated_subtypes.mpr ⟨ho.1, hcls⟩
  have hnodup : (allocated_subtypes h cls).Nodup := h.nodup_allocated.filter _
  rw [specialized_cone_type]
  match hsubs : allocated_subtypes h cls with
  | [] =>
    refine ⟨[], rfl, ⟨List.Pairwise.nil, by simp⟩, fun o ho hcls => ?_⟩
    have := hmem o ho hcls
    rw [hsubs] at this
    exact absurd this List.not_mem_nil
  | [sub] =>
    refine ⟨[.of_class sub], rfl, ⟨List.pairwise_singleton _ _, ?_⟩, fun o ho hcls => ?_⟩
    · rintro type hty
      rw [List.mem_singleton.mp hty]
      exact of_class_wellFormed sub
    · have := hmem o ho hcls
      rw [hsubs] at this
      exact ⟨_, List.mem_cons_self, of_class_denotes.mpr (List.mem_singleton.mp this)⟩
  | s :: t :: subs =>
    rw [hsubs] at hnodup
    refine ⟨_, ?_, sorted_mergeSort hnodup, fun o ho hcls => ⟨.of_class o.cls, ?_, of_class_denotes.mpr rfl⟩⟩
    · rw [of_list_eq_set (by rw [List.length_mergeSort]; simp)]
    · rw [List.mem_mergeSort]
      exact List.mem_map_of_mem (hsubs ▸ hmem o ho hcls)

/-- The types without `null` that are not cones. -/
def TFType.Specialized : TFType C R A → Prop
  | nullable _ => False
  | cone _ => False
  | _ => True

/-- The specialization of a cone keeps its allocated instances. -/
lemma specialize_type_cone_spec (cls : C) : (specialize_type_cone h cls true : TFType C R A).WellFormed h ∧
      (specialize_type_cone h cls true : TFType C R A).Specialized ∧
      ∀ o : Instance C R A, o.Exists h → cls ∈ h.supertypes o.cls → (specialize_type_cone h cls true).Contains h o := by
  rw [specialize_type_cone]
  split_ifs with hobj hwide
  · exact ⟨trivial, trivial, fun o _ _ => trivial⟩
  · exact ⟨trivial, trivial, fun o _ hcls => hcls⟩
  · obtain ⟨types, htypes, hwf, hmem⟩ := specialized_cone_type_spec cls
    rw [htypes]
    refine ⟨of_list_wellFormed hwf, ?_, fun o ho hcls => of_list_contains.mpr (hmem o ho hcls)⟩
    match types with
    | [] => trivial
    | [type] => trivial
    | s :: t :: types => trivial

section

/-- The results of a binary operation on types, when the operands are swapped and cones are specialized on the
way to them. The last two fields are the calls that specialize a cone. -/
structure Dispatch (h : TypeHierarchy C R) (op : Nat → TFType C R A → TFType C R A → Checked (TFType C R A))
    (Spec : TFType C R A → TFType C R A → TFType C R A → Prop) : Prop where
  symm : ∀ s t r, Spec s t r → Spec t s r
  swap : ∀ n s t, t.order < s.order → op (n + 1) s t = op n t s
  direct : ∀ n s t, s.WellFormed h → t.WellFormed h → s.Specialized → t.Specialized → s.order ≤ t.order →
    ∃ r, op (n + 1) s t = .ok r ∧ Spec s t r
  cone : ∀ n s cls, s.WellFormed h → s.Specialized → s.order < (TFType.cone cls : TFType C R A).order →
    (∃ r, op (n + 1) s (.cone cls) = .ok r ∧ Spec s (.cone cls) r) ∨
      op (n + 1) s (.cone cls) = op n (specialize_type_cone h cls true) s
  of_cone : ∀ n cls t, t.WellFormed h → (TFType.cone cls : TFType C R A).order ≤ t.order →
    (∃ r, op (n + 1) (.cone cls) t = .ok r ∧ Spec (.cone cls) t r) ∨
      op (n + 1) (.cone cls) t = op n (specialize_type_cone h cls true) t
  specialize : ∀ cls t r, Spec (specialize_type_cone h cls true) t r → Spec (.cone cls) t r

variable {op : Nat → TFType C R A → TFType C R A → Checked (TFType C R A)}
  {Spec : TFType C R A → TFType C R A → TFType C R A → Prop} {s t : TFType C R A}

/-- The operation returns a correct result with this much fuel. -/
def Settles (op : Nat → TFType C R A → TFType C R A → Checked (TFType C R A))
    (Spec : TFType C R A → TFType C R A → TFType C R A → Prop) (bound : Nat) (s t : TFType C R A) : Prop :=
  ∀ n, bound ≤ n → ∃ r, op n s t = .ok r ∧ Spec s t r

/-- Types that are no cones need two calls, as the first one may swap them. -/
lemma Dispatch.specialized (D : Dispatch h op Spec) (hs : s.WellFormed h) (ht : t.WellFormed h) (hs' : s.Specialized)
    (ht' : t.Specialized) : Settles op Spec 2 s t := by
  intro n hn
  obtain ⟨m, rfl⟩ := Nat.exists_eq_add_of_le' hn
  by_cases hord : s.order ≤ t.order
  · exact D.direct (m + 1) s t hs ht hs' ht' hord
  rw [D.swap (m + 1) s t (by omega)]
  obtain ⟨r, hr, hspec⟩ := D.direct m t s ht hs ht' hs' (by omega)
  exact ⟨r, hr, D.symm t s r hspec⟩

/-- A cone is specialized at most once. -/
lemma Dispatch.settles_cone (D : Dispatch h op Spec) (cls : C) (ht : t.WellFormed h) (ht' : t.Specialized)
    (hord : (TFType.cone cls : TFType C R A).order ≤ t.order) : Settles op Spec 3 (.cone cls) t := by
  intro n hn
  obtain ⟨m, rfl⟩ := Nat.exists_eq_add_of_le' hn
  obtain ⟨hwf, hspcl, -⟩ := specialize_type_cone_spec cls
  rcases D.of_cone (m + 2) cls t ht hord with hdirect | hcall
  · exact hdirect
  · obtain ⟨r, hr, hspec⟩ := D.specialized hwf ht hspcl ht' (m + 2) (by omega)
    exact ⟨r, hcall.trans hr, D.specialize cls t r hspec⟩

omit [DecidableEq C] in
lemma TFType.Specialized.order_ne (hs : s.Specialized) (cls : C) : s.order ≠ (TFType.cone cls : TFType C R A).order := by
  cases s with
  | cone _ => exact absurd hs id
  | _ => simp [order]

lemma Dispatch.specialized_cone (D : Dispatch h op Spec) (cls : C) (hs : s.WellFormed h) (hs' : s.Specialized) :
    Settles op Spec 4 s (.cone cls) := by
  intro n hn
  obtain ⟨m, rfl⟩ := Nat.exists_eq_add_of_le' hn
  obtain ⟨hwf, hspcl, -⟩ := specialize_type_cone_spec cls
  rcases Nat.lt_or_gt_of_ne (hs'.order_ne cls) with hlt | hgt
  · rcases D.cone (m + 3) s cls hs hs' hlt with hdirect | hcall
    · exact hdirect
    · obtain ⟨r, hr, hspec⟩ := D.specialized hwf hs hspcl hs' (m + 3) (by omega)
      exact ⟨r, hcall.trans hr, D.symm _ _ r (D.specialize cls s r hspec)⟩
  · rw [D.swap (m + 3) s (.cone cls) hgt]
    obtain ⟨r, hr, hspec⟩ := D.settles_cone cls hs hs' hgt.le (m + 3) (by omega)
    exact ⟨r, hr, D.symm _ _ r hspec⟩

/-- The double dispatch ends for all types without `null`. -/
lemma Dispatch.settles (D : Dispatch h op Spec) (hs : s.WellFormed h) (ht : t.WellFormed h)
    (hs' : ∀ b, s ≠ .nullable b) (ht' : ∀ b, t ≠ .nullable b) : Settles op Spec 5 s t := by
  have hcases : ∀ u : TFType C R A, (∀ b, u ≠ .nullable b) → u.Specialized ∨ ∃ cls, u = .cone cls := by
    intro u hu
    cases u with
    | nullable b => exact absurd rfl (hu b)
    | cone cls => exact .inr ⟨cls, rfl⟩
    | _ => exact .inl trivial
  intro n hn
  obtain ⟨m, rfl⟩ := Nat.exists_eq_add_of_le' hn
  rcases hcases s hs' with hss | ⟨cls, rfl⟩
  · rcases hcases t ht' with hts | ⟨cls, rfl⟩
    · exact D.specialized hs ht hss hts (m + 5) (by omega)
    · exact D.specialized_cone cls hs hss (m + 5) (by omega)
  rcases hcases t ht' with hts | ⟨cls', rfl⟩
  · rcases Nat.lt_or_gt_of_ne (hts.order_ne cls) with hlt | hgt
    · rw [D.swap (m + 4) (.cone cls) t hlt]
      obtain ⟨r, hr, hspec⟩ := D.specialized_cone cls ht hts (m + 4) (by omega)
      exact ⟨r, hr, D.symm _ _ r hspec⟩
    · exact D.settles_cone cls ht hts hgt.le (m + 5) (by omega)
  · rcases D.of_cone (m + 4) cls (.cone cls') ht le_rfl with hdirect | hcall
    · exact hdirect
    obtain ⟨hwf, hspcl, -⟩ := specialize_type_cone_spec cls
    obtain ⟨r, hr, hspec⟩ := D.specialized_cone cls' hwf hspcl (m + 4) (by omega)
    exact ⟨r, hcall.trans hr, D.specialize cls _ r hspec⟩

end

section
variable [DecidableEq R] [DecidableEq A] {same : Identity C R A} {xs ys : List (ConcreteType C R A)}
  {o : Instance C R A} {x y : ConcreteType C R A}

section
omit [DecidableEq C] [DecidableEq R] [DecidableEq A]

lemma eq_of_identical (hsame : same.identical (.concrete x) (.concrete y) = true) : x = y :=
  concrete.inj (same.eq_of_identical _ _ hsame)

/-- What the union keeps of two concrete types of one class. -/
def combine (same : Identity C R A) (x y : ConcreteType C R A) : ConcreteType C R A :=
  if same.identical (.concrete x) (.concrete y) then x else x.raw

/-- `_unionLists` is a merge of sorted lists. -/
lemma union_lists_eq : union_lists h same xs ys = merge (fun type => h.id type.cls) (combine same) xs ys := by
  fun_induction union_lists h same xs ys with
  | case1 ys => rw [merge]
  | case2 x xs => rw [merge]
  | case3 x xs y ys hsame ih =>
    have heq := eq_of_identical hsame
    rw [merge, if_neg (by rw [heq]; exact lt_irrefl _), if_neg (by rw [heq]; exact lt_irrefl _), combine, if_pos hsame, ih]
  | case4 x xs y ys hsame hlt ih => rw [merge, if_pos hlt, ih]
  | case5 x xs y ys hsame hle hlt ih => rw [merge, if_neg hle, if_pos hlt, ih]
  | case6 x xs y ys hsame hle hge ih => rw [merge, if_neg hle, if_neg hge, combine, if_neg hsame, ih]

lemma combine_cls (x y : ConcreteType C R A) : (combine same x y).cls = x.cls := by
  rw [combine]
  split_ifs <;> rfl

/-- Types of one class that differ are replaced by the class without constraints. -/
lemma combine_denotes (hcls : x.cls = y.cls) (hden : x.Denotes h o ∨ y.Denotes h o) :
    (combine same x y).Denotes h o := by
  rw [combine]
  split_ifs with hsame
  · rw [← eq_of_identical hsame, or_self] at hden
    exact hden
  · refine of_class_denotes.mpr ?_
    rcases hden with hden | hden
    · exact hden.1
    · exact hden.1.trans hcls.symm

lemma union_lists_wellFormed (hxs : ListWellFormed h xs) (hys : ListWellFormed h ys) :
    ListWellFormed h (union_lists h same xs ys) := by
  rw [union_lists_eq]
  refine ⟨merge_sorted (fun x y _ => congrArg h.id (combine_cls x y)) hxs.1 hys.1, fun z hz => ?_⟩
  rcases mem_merge hz with hz | hz | ⟨x, hx, y, -, -, rfl⟩
  · exact hxs.2 z hz
  · exact hys.2 z hz
  · rw [combine]
    split_ifs
    · exact hxs.2 x hx
    · exact of_class_wellFormed x.cls

/-- The merged list loses no instance. -/
lemma union_lists_denotes (hden : (∃ x ∈ xs, x.Denotes h o) ∨ ∃ y ∈ ys, y.Denotes h o) :
    ∃ z ∈ union_lists h same xs ys, z.Denotes h o := by
  rw [union_lists_eq]
  rcases hden with ⟨x, hx, hden⟩ | ⟨y, hy, hden⟩
  · rcases mem_merge_left hx with hmem | ⟨y, -, hkey, hmem⟩
    · exact ⟨x, hmem, hden⟩
    · exact ⟨_, hmem, combine_denotes (h.id_injective hkey) (.inl hden)⟩
  rcases mem_merge_right hy with hmem | ⟨x, -, hkey, hmem⟩
  · exact ⟨y, hmem, hden⟩
  · exact ⟨_, hmem, combine_denotes (h.id_injective hkey) (.inr hden)⟩

lemma length_le_union_lists : xs.length ≤ (union_lists h same xs ys).length := by
  rw [union_lists_eq]
  exact length_le_merge

/-- The shortcut for a list that has all types of the other. -/
lemma is_sub_list_subset (hsub : is_sub_list h same xs ys = true) : xs ⊆ ys := by
  fun_induction is_sub_list h same xs ys with
  | case1 ys => exact List.nil_subset _
  | case2 x xs => cases hsub
  | case3 x xs y ys hsame ih =>
    rw [← eq_of_identical hsame]
    exact List.cons_subset_cons x (ih hsub)
  | case4 x xs y ys hsame hgt ih => exact List.subset_cons_of_subset y (ih hsub)
  | case5 x xs y ys hsame hle => cases hsub

end

/-- The intersection of two well-formed concrete types. -/
def meet_concrete (h : TypeHierarchy C R) (x y : ConcreteType C R A) : Option (ConcreteType C R A) :=
  match x.intersection h y with
  | .ok result => result
  | .error _ => none

lemma meet_concrete_spec (hx : x.WellFormed h) (hy : y.WellFormed h) :
    x.intersection h y = .ok (meet_concrete h x y) ∧ ConcreteType.IsIntersection h x y (meet_concrete h x y) := by
  obtain ⟨result, hres, hspec⟩ := intersection_spec hx hy
  rw [meet_concrete, hres]
  exact ⟨rfl, hspec⟩

lemma meet_concrete_self (x : ConcreteType C R A) : meet_concrete h x x = some x := by
  rw [meet_concrete, ConcreteType.intersection, if_pos (ConcreteType.equals_self x)]

/-- `_intersectLists` keeps the classes of both lists. -/
lemma intersect_lists_eq (hxs : ∀ x ∈ xs, x.WellFormed h) (hys : ∀ y ∈ ys, y.WellFormed h) :
    intersect_lists h same xs ys = .ok (meet (fun type => h.id type.cls) (meet_concrete h) xs ys) := by
  fun_induction intersect_lists h same xs ys with
  | case1 ys => rw [meet]
  | case2 x xs => rw [meet]
  | case3 x xs y ys hsame ih =>
    have heq := eq_of_identical hsame
    rw [ih (fun z hz => hxs z (List.mem_cons_of_mem _ hz)) fun z hz => hys z (List.mem_cons_of_mem _ hz), meet,
      if_neg (by rw [heq]; exact lt_irrefl _), if_neg (by rw [heq]; exact lt_irrefl _), ← heq, meet_concrete_self]
    rfl
  | case4 x xs y ys hsame hlt ih =>
    rw [ih (fun z hz => hxs z (List.mem_cons_of_mem _ hz)) hys, meet, if_pos hlt]
  | case5 x xs y ys hsame hle hlt ih =>
    rw [ih hxs fun z hz => hys z (List.mem_cons_of_mem _ hz), meet, if_neg hle, if_pos hlt]
  | case6 x xs y ys hsame hle hge ih =>
    rw [ih (fun z hz => hxs z (List.mem_cons_of_mem _ hz)) fun z hz => hys z (List.mem_cons_of_mem _ hz),
      (meet_concrete_spec (hxs x List.mem_cons_self) (hys y List.mem_cons_self)).1, meet, if_neg hle, if_neg hge]
    rfl

/-- The intersection of two sorted lists. -/
lemma intersect_lists_spec (hxs : ListWellFormed h xs) (hys : ListWellFormed h ys) :
    ∃ zs, intersect_lists h same xs ys = .ok zs ∧ ListWellFormed h zs ∧
      ∀ o, o.Exists h → (∃ x ∈ xs, x.Denotes h o) → (∃ y ∈ ys, y.Denotes h o) → ∃ z ∈ zs, z.Denotes h o := by
  refine ⟨_, intersect_lists_eq hxs.2 hys.2, ⟨?_, fun z hz => ?_⟩, ?_⟩
  · refine meet_sorted (fun x hx y hy z hz => congrArg h.id ?_) hxs.1 hys.1
    exact ((meet_concrete_spec (hxs.2 x hx) (hys.2 y hy)).2.wellFormed z hz).2
  · obtain ⟨x, hx, y, hy, -, hz⟩ := mem_meet hz
    exact ((meet_concrete_spec (hxs.2 x hx) (hys.2 y hy)).2.wellFormed z hz).1
  · rintro o ho ⟨x, hx, hxo⟩ ⟨y, hy, hyo⟩
    obtain ⟨z, hz, hzo⟩ := (meet_concrete_spec (hxs.2 x hx) (hys.2 y hy)).2.denotes o ho.2 hxo hyo
    exact ⟨z, mem_meet_of_key_eq hxs.1 hys.1 hx hy (congrArg h.id (hxo.1.symm.trans hyo.1)) hz, hzo⟩

end

variable [DecidableEq R] [DecidableEq A] {same : Identity C R A} {s t r : TFType C R A}
  {call : TFType C R A → TFType C R A → Checked (TFType C R A)} {xs ys : List (ConcreteType C R A)}
  {type : ConcreteType C R A} {cls : C}

omit [DecidableEq C] [DecidableEq R] [DecidableEq A] in
/-- Types of different orders are not identical. -/
lemma Identity.not_identical_of_order (hord : t.order < s.order) : ¬same.identical s t = true := by
  intro hsame
  rw [same.eq_of_identical s t hsame] at hord
  exact lt_irrefl _ hord

/-- The operand of lower order is asked. -/
lemma union_swap (n : Nat) (hord : t.order < s.order) : union h same (n + 1) s t = union h same n t s := by
  have hdiff := same.not_identical_of_order hord
  cases s with
  | empty => cases t <;> simp [order] at hord
  | nullable b | any | concrete type => exact if_pos hord
  | set types | cone cls | wide_cone cls => exact (if_neg hdiff).trans (if_pos hord)

/-- Two sets are united by merging, unless one has all types of the other. -/
lemma set_union_set (hxs : (TFType.set xs).WellFormed h) (hys : (TFType.set ys).WellFormed h) :
    ∃ r, set_union h same call xs (.set ys) = .ok r ∧ Unites h (.set xs) (.set ys) r := by
  have hlists : Unites h (.set xs) (.set ys) (.set (union_lists h same xs ys)) := by
    obtain ⟨hsort, hall⟩ := union_lists_wellFormed hxs.2 hys.2
    exact ⟨⟨hxs.1.trans length_le_union_lists, hsort, hall⟩, fun o _ ho => union_lists_denotes ho⟩
  rw [set_union]
  split_ifs with hsame hord hlen hsub hsub
  · exact ⟨_, rfl, .identical hsame hxs⟩
  · exact absurd hord (lt_irrefl _)
  · exact ⟨_, rfl, .left hxs fun o _ ⟨t, ht, hto⟩ => ⟨t, is_sub_list_subset hsub ht, hto⟩⟩
  · exact ⟨_, rfl, hlists⟩
  · exact ⟨_, rfl, .right hys fun o _ ⟨t, ht, hto⟩ => ⟨t, is_sub_list_subset hsub ht, hto⟩⟩
  · exact ⟨_, rfl, hlists⟩

/-- What the loop after the search finds is in the set. -/
lemma exists_equals_of_set_contains (hmem : set_contains h same xs type = true) : ∃ x ∈ xs, x.equals h type = true := by
  rw [set_contains] at hmem
  split at hmem
  · cases hmem
  · obtain ⟨x, hx, hequals⟩ := List.any_eq_true.mp hmem
    exact ⟨x, List.mem_of_mem_drop ((List.takeWhile_sublist _).subset hx), hequals⟩

lemma set_union_concrete (hxs : (TFType.set xs).WellFormed h) (hty : type.WellFormed h) :
    ∃ r, set_union h same call xs (.concrete type) = .ok r ∧ Unites h (.set xs) (.concrete type) r := by
  rw [set_union]
  split_ifs with hsame hord hmem
  · exact ⟨_, rfl, .identical hsame hxs⟩
  · exact absurd hord (by simp [order])
  · obtain ⟨x, hx, hequals⟩ := exists_equals_of_set_contains hmem
    refine ⟨_, rfl, .left hxs fun o ho hto => ⟨x, hx, ?_⟩⟩
    exact hto.of_equals (hxs.2.2 x hx) (equals_symm hequals) ho.2
  · have htypes : ListWellFormed h [type] := ⟨List.pairwise_singleton _ _, by simpa using hty⟩
    have hlist : ListWellFormed h (union_lists h same xs [type]) := union_lists_wellFormed hxs.2 htypes
    refine ⟨_, rfl, ⟨hxs.1.trans length_le_union_lists, hlist⟩, fun o _ ho => union_lists_denotes ?_⟩
    exact ho.imp id fun hto => ⟨type, List.mem_cons_self, hto⟩

variable (call) in
lemma concrete_union_concrete {s t : ConcreteType C R A} (hs : s.WellFormed h) (ht : t.WellFormed h) :
    ∃ r, concrete_union h call s (.concrete t) = .ok r ∧ Unites h (.concrete s) (.concrete t) r := by
  rw [concrete_union]
  split_ifs with hord hequals hcls hid
  · exact absurd hord (lt_irrefl _)
  · exact ⟨_, rfl, .left hs fun o ho hto => hto.of_equals hs (equals_symm hequals) ho.2⟩
  · refine ⟨_, rfl, ⟨le_rfl, by simpa [Sorted] using hid, by simpa using ⟨hs, ht⟩⟩, fun o _ ho => ?_⟩
    exact ho.elim (fun hso => ⟨s, by simp, hso⟩) fun hto => ⟨t, by simp, hto⟩
  · have hne : h.id s.cls ≠ h.id t.cls := fun heq => hcls (h.id_injective heq)
    refine ⟨_, rfl, ⟨le_rfl, ?_, by simpa using ⟨ht, hs⟩⟩, fun o _ ho => ?_⟩
    · simp only [Sorted, List.pairwise_cons, List.mem_singleton, forall_eq]
      exact ⟨by omega, by simp⟩
    · exact ho.elim (fun hso => ⟨s, by simp, hso⟩) fun hto => ⟨t, by simp, hto⟩
  · rw [not_not] at hcls
    refine ⟨.concrete s.raw, ?_, of_class_wellFormed _, fun o _ ho => ?_⟩
    · -- Two types of one class without type arguments and attributes are equal.
      have hconstraint : (s.type_args.isSome || s.attributes.isSome || t.type_args.isSome || t.attributes.isSome) = true := by
        by_contra hnone
        simp only [Bool.or_eq_true, not_or, Bool.not_eq_true, Option.isSome_eq_false_iff, Option.isNone_iff_eq_none] at hnone
        obtain ⟨⟨⟨hsargs, hsa⟩, htargs⟩, hta⟩ := hnone
        exact hequals (by simp [equals, num_immediate_type_args, hcls, hsargs, hsa, htargs, hta])
      rw [hconstraint]
      rfl
    · exact of_class_denotes.mpr (ho.elim (fun hso => hso.1) fun hto => hto.1.trans hcls.symm)

section
omit [DecidableEq R] [DecidableEq A]

lemma wide_cone_union_spec (ht : t.WellFormed h) (hord : (TFType.wide_cone cls : TFType C R A).order ≤ t.order) :
    ∃ r, wide_cone_union h same call cls t = .ok r ∧ Unites h (.wide_cone cls) t r := by
  cases t with
  | empty | nullable b | any => simp [order] at hord
  | set types =>
    rw [wide_cone_union]
    split_ifs with hsame hord hall
    · exact ⟨_, rfl, .identical hsame trivial⟩
    · exact absurd hord (by simp [order])
    · refine ⟨_, rfl, .left trivial fun o _ ⟨type, hty, ho⟩ => ?_⟩
      exact ho.mem_supertypes_iff.mpr (List.all_eq_true.mp hall type hty)
    · exact ⟨_, rfl, .any _ _⟩
  | wide_cone other | cone other =>
    rw [wide_cone_union]
    split_ifs with hsame hord hother hthis
    · exact ⟨_, rfl, .identical hsame trivial⟩
    · exact absurd hord (by simp [order])
    · exact ⟨_, rfl, .left trivial fun o _ ho => is_subtype_of_trans hother ho⟩
    · exact ⟨_, rfl, .right trivial fun o _ ho => is_subtype_of_trans hthis ho⟩
    · exact ⟨_, rfl, .any _ _⟩
  | concrete type =>
    rw [wide_cone_union]
    split_ifs with hsame hord hother hthis
    · exact ⟨_, rfl, .identical hsame trivial⟩
    · exact absurd hord (by simp [order])
    · exact ⟨_, rfl, .left trivial fun o _ ho => ho.mem_supertypes_iff.mpr hother⟩
    · refine ⟨_, rfl, trivial, fun o _ ho => ?_⟩
      rcases ho with ho | ho
      · exact is_subtype_of_trans hthis ho
      · exact ho.1 ▸ h.mem_supertypes o.cls
    · exact ⟨_, rfl, .any _ _⟩

/-- A cone contains the other type or is specialized. -/
lemma cone_union_spec (ht : t.WellFormed h) (hord : (TFType.cone cls : TFType C R A).order ≤ t.order) :
    (∃ r, cone_union h same call cls t = .ok r ∧ Unites h (.cone cls) t r) ∨
      cone_union h same call cls t = call (specialize_type_cone h cls true) t := by
  cases t with
  | cone other =>
    rw [cone_union]
    split_ifs with hsame hord hcls hother hthis
    · exact .inl ⟨_, rfl, .identical hsame trivial⟩
    · exact absurd hord (lt_irrefl _)
    · exact .inl ⟨_, rfl, .left trivial fun o _ ho => hcls ▸ ho⟩
    · exact .inl ⟨_, rfl, .left trivial fun o _ ho => is_subtype_of_trans hother ho⟩
    · exact .inl ⟨_, rfl, .right trivial fun o _ ho => is_subtype_of_trans hthis ho⟩
    · exact .inr rfl
  | concrete type =>
    rw [cone_union]
    split_ifs with hsame hord hother
    · exact .inl ⟨_, rfl, .identical hsame trivial⟩
    · exact absurd hord (by simp [order])
    · exact .inl ⟨_, rfl, .left trivial fun o _ ho => ho.mem_supertypes_iff.mpr hother⟩
    · exact .inr rfl
  | _ => simp [order] at hord

end

/-- What the cases of `union` do, for types that are not nullable. -/
lemma union_dispatch : Dispatch h (union h same) (Unites (A := A) h) where
  symm s t r := Unites.symm
  swap n s t := union_swap n
  direct n s t hs ht hs' ht' hord := by
    cases s with
    | empty => exact ⟨t, rfl, .right ht fun o _ ho => absurd ho id⟩
    | nullable b | cone cls => exact absurd hs' id
    | any => exact ⟨_, if_neg (Nat.not_lt.mpr hord), .any _ _⟩
    | wide_cone cls => exact wide_cone_union_spec ht hord
    | set xs =>
      cases t with
      | set ys => exact set_union_set hs ht
      | concrete type => exact set_union_concrete hs ht
      | cone cls => exact absurd ht' id
      | _ => simp [order] at hord
    | concrete x =>
      cases t with
      | concrete y => exact concrete_union_concrete (union h same n) hs ht
      | _ => simp [order] at hord
  cone n s cls hs hs' hord := by
    cases s with
    | empty => exact .inl ⟨_, rfl, .right trivial fun o _ ho => absurd ho id⟩
    | nullable b | cone cls => exact absurd hs' id
    | any => exact .inl ⟨_, rfl, .any _ _⟩
    | wide_cone cls => exact .inl (wide_cone_union_spec trivial (by simp [order]))
    | set xs =>
      by_cases hsame : same.identical (.set xs) (.cone cls) = true
      · cases same.eq_of_identical _ _ hsame
      · exact .inr (if_neg hsame)
    | concrete x => simp [order] at hord
  of_cone n cls t ht hord := cone_union_spec ht hord
  specialize cls t r hr := by
    obtain ⟨-, -, hmem⟩ := specialize_type_cone_spec cls
    exact ⟨hr.1, fun o ho hst => hr.2 o ho (hst.imp (hmem o ho) id)⟩

end dart.type_flow
