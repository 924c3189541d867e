import DartVM.TypeFlow.Types

namespace dart.type_flow
open TypeArg

open dart.sorted_merge List Option
variable {C R A : Type}

/-- An instance of a class: its class, the arguments for the type parameters of the class, and the constant or
the closure that it is, if it is one. -/
structure Instance (C R A : Type) where
  cls : C
  type_args : List R
  attributes : Option A

/-- A run-time value. -/
inductive Value (C R A : Type) where
  | null
  | object (instance_ : Instance C R A)

/-- The values that a program can create: `null` and the instances of allocated classes. -/
def Value.Exists (h : TypeHierarchy C R) : Value C R A → Prop
  | null => True
  | object o => o.cls ∈ h.allocated_classes ∧ o.type_args.length = h.num_type_parameters o.cls

/-- The run-time types that a type argument stands for. -/
def TypeArg.Allows : TypeArg R → R → Prop
  | unknown, _ => True
  | runtime r, s => r = s

section
variable (h : TypeHierarchy C R)

/-- The instances that a concrete type stands for. -/
def ConcreteType.Denotes (type : ConcreteType C R A) (o : Instance C R A) : Prop :=
  o.cls = type.cls ∧
    (∀ args, type.type_args = some args →
      List.Forall₂ TypeArg.Allows args (h.flattened_type_arguments_for o.cls o.type_args)) ∧
    ∀ a, type.attributes = some a → o.attributes = some a

/-- The instances that a type stands for. -/
def TFType.Contains : TFType C R A → Instance C R A → Prop
  | empty, _ => False
  | nullable base_type, o => base_type.Contains o
  | any, _ => True
  | set types, o => ∃ type ∈ types, type.Denotes h o
  | cone cls, o => cls ∈ h.supertypes o.cls
  | wide_cone cls, o => cls ∈ h.supertypes o.cls
  | concrete type, o => type.Denotes h o

/-- The values that a type stands for; only nullable types contain `null`. -/
def TFType.Denotes (type : TFType C R A) : Value C R A → Prop
  | .null => ∃ base_type, type = nullable base_type
  | .object o => type.Contains h o

/-- The type arguments are those of a generic class, at least one of them is known, and the arguments of the
supertypes are implied by those of the class. -/
def ConcreteType.WellFormed (type : ConcreteType C R A) : Prop :=
  ∀ args, type.type_args = some args → type.attributes = none ∧ 0 < h.num_type_parameters type.cls ∧
    args.length = h.num_flattened_type_arguments type.cls ∧ args.any TypeArg.is_runtime = true ∧
    ∀ actual, actual.length = h.num_type_parameters type.cls →
      List.Forall₂ TypeArg.Allows (args.take (h.num_type_parameters type.cls)) actual →
      List.Forall₂ TypeArg.Allows args (h.flattened_type_arguments_for type.cls actual)

/-- The invariants of the constructors: a set type has at least two concrete types, which are strictly ordered
by their class ids, and nullable types are not nested. -/
def TFType.WellFormed : TFType C R A → Prop
  | nullable base_type => (∀ t, base_type ≠ nullable t) ∧ base_type.WellFormed
  | set types => 2 ≤ types.length ∧ Sorted (fun type => h.id type.cls) types ∧ ∀ type ∈ types, type.WellFormed h
  | concrete type => type.WellFormed h
  | _ => True

end

variable {h : TypeHierarchy C R} {o : Instance C R A}

/-- A class without constraints stands for its direct instances. -/
lemma ConcreteType.of_class_denotes {cls : C} : (of_class cls : ConcreteType C R A).Denotes h o ↔ o.cls = cls := by
  simp [Denotes, of_class]

lemma ConcreteType.of_class_wellFormed (cls : C) : (of_class cls : ConcreteType C R A).WellFormed h := by
  intro args hargs
  cases hargs

/-- Only `null` is added. -/
lemma TFType.to_nullable_contains {t : TFType C R A} : t.to_nullable.Contains h o ↔ t.Contains h o := by
  cases t <;> rfl

lemma TFType.exists_to_nullable_eq (t : TFType C R A) : ∃ s, t.to_nullable = nullable s := by
  cases t <;> exact ⟨_, rfl⟩

lemma TFType.to_nullable_wellFormed {t : TFType C R A} (hwf : t.WellFormed h) : t.to_nullable.WellFormed h := by
  cases t with
  | nullable s => exact hwf
  | _ => exact ⟨fun s => by simp, hwf⟩

section

lemma supertypes_trans {b c d : C} (hbc : c ∈ h.supertypes b) (hcd : d ∈ h.supertypes c) : d ∈ h.supertypes b :=
  h.supertypes_subset b c hbc hcd

variable [DecidableEq C] {c d : C}

lemma is_subtype_of_iff : is_subtype_of h c d = true ↔ d ∈ h.supertypes c := by
  rw [is_subtype_of, Bool.or_eq_true, decide_eq_true_iff, contains_iff_mem]
  exact or_iff_right_of_imp fun heq => heq ▸ h.mem_supertypes c

lemma is_subtype_of_trans {o : Instance C R A} (hsub : is_subtype_of h c d = true)
    (ho : c ∈ h.supertypes o.cls) : d ∈ h.supertypes o.cls := supertypes_trans ho (is_subtype_of_iff.mp hsub)

lemma ConcreteType.Denotes.mem_supertypes_iff {type : ConcreteType C R A} {c : C} {o : Instance C R A}
    (ho : type.Denotes h o) : c ∈ h.supertypes o.cls ↔ is_subtype_of h type.cls c = true := by
  rw [ho.1, is_subtype_of_iff]

/-- The classes that a cone is specialized to. -/
lemma mem_allocated_subtypes {c cls : C} :
    c ∈ allocated_subtypes h cls ↔ c ∈ h.allocated_classes ∧ cls ∈ h.supertypes c := by
  rw [allocated_subtypes, mem_filter, is_subtype_of_iff]

end

variable {s t : ConcreteType C R A} {o : Instance C R A}

/-- The first flattened type arguments are those of the class itself. -/
lemma forall₂_take {args : List (TypeArg R)} {actual : List R} (hlen : actual.length = h.num_type_parameters o.cls)
    (hargs : List.Forall₂ TypeArg.Allows args (h.flattened_type_arguments_for o.cls actual)) :
    List.Forall₂ TypeArg.Allows (args.take (h.num_type_parameters o.cls)) actual := by
  have htake := List.forall₂_take (h.num_type_parameters o.cls) hargs
  rwa [h.take_flattened o.cls actual hlen] at htake

variable [DecidableEq C] [DecidableEq R] [DecidableEq A]

/-- Equal concrete types stand for the same instances, although the type arguments of the supertypes are not
compared. -/
lemma ConcreteType.Denotes.of_equals (ht : t.WellFormed h) (heq : s.equals h t = true)
    (ho : o.type_args.length = h.num_type_parameters o.cls) (hden : s.Denotes h o) : t.Denotes h o := by
  simp only [equals, Bool.and_eq_true, decide_eq_true_iff] at heq
  obtain ⟨⟨⟨hcls, hnum⟩, hattrs⟩, hargs⟩ := heq
  obtain ⟨hocls, hden, hoattributes⟩ := hden
  refine ⟨hocls.trans hcls, fun args' hargs' => ?_, fun a ha => hoattributes a (hattrs.trans ha)⟩
  obtain ⟨-, hpos, -, -, himplied⟩ := ht args' hargs'
  cases hsargs : s.type_args with
  | none =>
    simp only [num_immediate_type_args, hsargs, hargs'] at hnum
    omega
  | some args =>
    rw [hargs'] at hargs
    simp only [num_immediate_type_args, hsargs, getD_some, decide_eq_true_iff] at hargs
    have htake := forall₂_take ho (hden args hsargs)
    rw [hocls, hargs] at htake
    rw [hocls, hcls] at ho
    rw [hcls] at htake
    rw [hocls, hcls]
    exact himplied o.type_args ho htake

/-- The order of the operands of `==` does not matter. -/
lemma ConcreteType.equals_symm (heq : s.equals h t = true) : t.equals h s = true := by
  simp only [equals, Bool.and_eq_true, decide_eq_true_iff] at heq ⊢
  obtain ⟨⟨⟨hcls, hnum⟩, hattrs⟩, hargs⟩ := heq
  refine ⟨⟨⟨hcls.symm, hnum.symm⟩, hattrs.symm⟩, ?_⟩
  cases htargs : t.type_args with
  | none => rfl
  | some args' =>
    cases hsargs : s.type_args with
    | none =>
      have h0 : t.num_immediate_type_args h = 0 := hnum.symm.trans (by simp [num_immediate_type_args, hsargs])
      simp [h0]
    | some args =>
      rw [hsargs, htargs] at hargs
      rw [← hnum]
      exact decide_eq_true (of_decide_eq_true hargs).symm

section
omit [DecidableEq C] [DecidableEq A]

/-- Different type arguments have nothing in common. -/
lemma TypeArg.intersection_eq_none {s t : TypeArg R} {r : R} (h : s.intersection t = none) :
    ¬(s.Allows r ∧ t.Allows r) := by
  cases s with
  | unknown => cases h
  | runtime a =>
    cases t with
    | unknown => cases h
    | runtime b =>
      rw [intersection] at h
      split_ifs at h with hab
      exact fun hr => hab (hr.1.trans hr.2.symm)

/-- The merged type argument allows what both allow. -/
lemma TypeArg.intersection_allows {s t merged : TypeArg R} (h : s.intersection t = some merged) (r : R) :
    merged.Allows r ↔ s.Allows r ∧ t.Allows r := by
  cases s with
  | unknown =>
    rw [← some.inj h]
    exact (and_iff_right trivial).symm
  | runtime a =>
    cases t with
    | unknown =>
      rw [← some.inj h]
      exact (and_iff_left trivial).symm
    | runtime b =>
      rw [intersection] at h
      split_ifs at h with hab
      rw [← some.inj h, hab]
      exact (and_self_iff).symm

/-- One round of the merging loop. -/
lemma merge_type_args_cons (x y : TypeArg R) (xs ys : List (TypeArg R)) : merge_type_args (x :: xs) (y :: ys) =
      (x.intersection y).bind fun merged => (merge_type_args xs ys).map (merged :: ·) := by
  simp only [merge_type_args, zip_cons_cons, mapM_cons]
  cases x.intersection y with
  | none => rfl
  | some merged =>
    generalize mapM (m := Option) _ (xs.zip ys) = rest
    cases rest <;> rfl

end

variable {xs ys merged : List (TypeArg R)}

section
omit [DecidableEq C] [DecidableEq A]

/-- The merged arguments allow what both lists allow. -/
lemma merge_type_args_eq_some (hlen : xs.length = ys.length)
    (hmerge : merge_type_args xs ys = some merged) : merged.length = xs.length ∧
      ∀ actual, List.Forall₂ TypeArg.Allows merged actual ↔
        List.Forall₂ TypeArg.Allows xs actual ∧ List.Forall₂ TypeArg.Allows ys actual := by
  induction xs generalizing ys merged with
  | nil =>
    rw [length_nil, eq_comm, length_eq_zero_iff] at hlen
    rw [hlen] at hmerge ⊢
    rw [← some.inj hmerge]
    exact ⟨rfl, fun actual => (and_self_iff).symm⟩
  | cons x xs ih =>
    cases ys with
    | nil => cases hlen
    | cons y ys =>
      rw [merge_type_args_cons, bind_eq_some_iff] at hmerge
      obtain ⟨first, hfst, hmap⟩ := hmerge
      obtain ⟨rest, hrest, rfl⟩ := map_eq_some_iff.mp hmap
      obtain ⟨hlen', hallows⟩ := ih (Nat.succ.inj hlen) hrest
      refine ⟨congrArg Nat.succ hlen', fun actual => ?_⟩
      cases actual with
      | nil => simp
      | cons r actual =>
        simp only [forall₂_cons, intersection_allows hfst r, hallows actual]
        exact and_and_and_comm

/-- If merging fails, no type arguments fit both lists. -/
lemma merge_type_args_eq_none {xs ys : List (TypeArg R)} (hnone : merge_type_args xs ys = none) (actual : List R) :
    ¬(List.Forall₂ TypeArg.Allows xs actual ∧ List.Forall₂ TypeArg.Allows ys actual) := by
  induction xs generalizing ys actual with
  | nil => cases hnone
  | cons x xs ih =>
    cases ys with
    | nil => cases hnone
    | cons y ys =>
      rintro ⟨hx, hy⟩
      cases hx with
      | @cons _ r _ actual hx hxs =>
        obtain ⟨hy, hys⟩ := forall₂_cons.mp hy
        rw [merge_type_args_cons] at hnone
        cases hfst : x.intersection y with
        | none => exact intersection_eq_none hfst ⟨hx, hy⟩
        | some first =>
          rw [hfst, bind_some, map_eq_none_iff] at hnone
          exact ih hnone actual ⟨hxs, hys⟩

/-- Merging goes place by place. -/
lemma merge_type_args_take (hmerge : merge_type_args xs ys = some merged) (n : Nat) :
    merge_type_args (xs.take n) (ys.take n) = some (merged.take n) := by
  induction n generalizing xs ys merged with
  | zero => simp [merge_type_args]
  | succ n ih =>
    cases xs with
    | nil =>
      rw [← some.inj hmerge]
      rfl
    | cons x xs =>
      cases ys with
      | nil =>
        rw [← some.inj hmerge]
        rfl
      | cons y ys =>
        rw [merge_type_args_cons, bind_eq_some_iff] at hmerge
        obtain ⟨first, hfst, hmap⟩ := hmerge
        obtain ⟨rest, hrest, rfl⟩ := map_eq_some_iff.mp hmap
        rw [take_succ_cons, take_succ_cons, take_succ_cons, merge_type_args_cons, hfst, bind_some, ih hrest, map_some]

end

/-- What the intersection of two concrete types is. -/
structure ConcreteType.IsIntersection (h : TypeHierarchy C R) (s t : ConcreteType C R A)
    (result : Option (ConcreteType C R A)) : Prop where
  wellFormed : ∀ r, result = some r → r.WellFormed h ∧ r.cls = s.cls
  denotes : ∀ o, o.type_args.length = h.num_type_parameters o.cls → s.Denotes h o → t.Denotes h o →
    ∃ r, result = some r ∧ r.Denotes h o

omit [DecidableEq C] [DecidableEq R] [DecidableEq A] in
lemma ConcreteType.isIntersection_none (hdisj : ∀ o, s.Denotes h o → ¬t.Denotes h o) : IsIntersection h s t none where
  wellFormed r hr := by cases hr
  denotes o _ hso hto := absurd hto (hdisj o hso)

lemma ConcreteType.equals_self (t : ConcreteType C R A) : t.equals h t = true := by
  simp only [equals, decide_true, Bool.true_and]
  cases t.type_args <;> simp

/-- A type that only has attributes or type arguments is determined by its class and its attributes. -/
lemma ConcreteType.WellFormed.equals_of_attributes (hs : s.WellFormed h) (ht : t.WellFormed h) (hcls : s.cls = t.cls)
    {a : A} (hsa : s.attributes = some a) (hta : t.attributes = some a) : s.equals h t = true := by
  have hsargs : s.type_args = none := by
    by_contra hne
    obtain ⟨args, hargs⟩ := ne_none_iff_exists'.mp hne
    rw [(hs args hargs).1] at hsa
    cases hsa
  have htargs : t.type_args = none := by
    by_contra hne
    obtain ⟨args, hargs⟩ := ne_none_iff_exists'.mp hne
    rw [(ht args hargs).1] at hta
    cases hta
  simp [equals, num_immediate_type_args, hsargs, htargs, hcls, hsa, hta]

omit [DecidableEq C] [DecidableEq A] in
lemma ConcreteType.merged_wellFormed (hs : s.WellFormed h) (ht : t.WellFormed h) (hcls : s.cls = t.cls)
    (hsargs : s.type_args = some xs)
    (htargs : t.type_args = some ys) (hmerge : merge_type_args xs ys = some merged)
    (hany : merged.any is_runtime = true) : (⟨s.cls, some merged, none⟩ : ConcreteType C R A).WellFormed h := by
  obtain ⟨-, hpos, hxslength, -, hximplied⟩ := hs xs hsargs
  obtain ⟨-, -, hyslength, -, hyimplied⟩ := ht ys htargs
  rw [← hcls] at hyslength hyimplied
  have hlen : xs.length = ys.length := hxslength.trans hyslength.symm
  obtain ⟨hmlength, hallows⟩ := merge_type_args_eq_some hlen hmerge
  intro args hargs
  rw [← some.inj hargs]
  refine ⟨rfl, hpos, hmlength.trans hxslength, hany, fun actual hact htake => ?_⟩
  obtain ⟨-, htallows⟩ := merge_type_args_eq_some (by rw [length_take, length_take, hlen])
    (merge_type_args_take hmerge (h.num_type_parameters s.cls))
  obtain ⟨hxs, hys⟩ := (htallows actual).mp htake
  exact (hallows _).mpr ⟨hximplied actual hact hxs, hyimplied actual hact hys⟩

/-- `ConcreteType.intersection` is exact. -/
lemma ConcreteType.intersection_spec (hs : s.WellFormed h) (ht : t.WellFormed h) :
    ∃ result, s.intersection h t = .ok result ∧ IsIntersection h s t result := by
  rw [intersection]
  by_cases heq : s.equals h t = true
  · rw [if_pos heq]
    refine ⟨some s, rfl, fun r hr => ?_, fun o _ hso _ => ⟨s, rfl, hso⟩⟩
    rw [← some.inj hr]
    exact ⟨hs, rfl⟩
  rw [if_neg heq]
  by_cases hcls : s.cls ≠ t.cls
  · rw [if_pos hcls]
    exact ⟨none, rfl, isIntersection_none fun o hso hto => hcls (hso.1.symm.trans hto.1)⟩
  rw [if_neg hcls]
  rw [not_not] at hcls
  have hfst : IsIntersection h s t (some s) := ⟨fun r hr => some.inj hr ▸ ⟨hs, rfl⟩, fun o _ hso _ => ⟨s, rfl, hso⟩⟩
  have hsnd : IsIntersection h s t (some t) :=
    ⟨fun r hr => some.inj hr ▸ ⟨ht, hcls.symm⟩, fun o _ _ hto => ⟨t, rfl, hto⟩⟩
  cases hsa : s.attributes with
  | some a =>
    cases hta : t.attributes with
    | none => exact ⟨some s, rfl, hfst⟩
    | some b =>
      have hne : a ≠ b := fun hab => heq (hs.equals_of_attributes ht hcls hsa (hab ▸ hta))
      refine ⟨none, by simp [hne], isIntersection_none fun o hso hto => hne (some.inj ?_)⟩
      exact (hso.2.2 a hsa).symm.trans (hto.2.2 b hta)
  | none =>
    cases hta : t.attributes with
    | some b => exact ⟨some t, rfl, hsnd⟩
    | none =>
      cases hsargs : s.type_args with
      | none => exact ⟨some t, rfl, hsnd⟩
      | some xs =>
        cases htargs : t.type_args with
        | none => exact ⟨some s, rfl, hfst⟩
        | some ys =>
          have hlen : xs.length = ys.length := by
            rw [(hs xs hsargs).2.2.1, (ht ys htargs).2.2.1, hcls]
          dsimp only
          rw [check_bind hlen]
          cases hmerge : merge_type_args xs ys with
          | none =>
            refine ⟨none, rfl, isIntersection_none fun o hso hto => ?_⟩
            exact merge_type_args_eq_none hmerge _ ⟨hso.2.1 xs hsargs, hto.2.1 ys htargs⟩
          | some merged =>
            dsimp only
            by_cases hany : merged.any is_runtime = true
            · rw [if_pos hany]
              refine ⟨_, rfl, fun r hr => ?_, fun o _ hso hto => ⟨_, rfl, hso.1, fun args hargs => ?_, by simp⟩⟩
              · rw [← some.inj hr]
                exact ⟨merged_wellFormed hs ht hcls hsargs htargs hmerge hany, rfl⟩
              · rw [← some.inj hargs]
                exact ((merge_type_args_eq_some hlen hmerge).2 _).mpr ⟨hso.2.1 xs hsargs, hto.2.1 ys htargs⟩
            · rw [if_neg hany]
              refine ⟨_, rfl, fun r hr => ?_, fun o _ hso _ => ⟨_, rfl, of_class_denotes.mpr hso.1⟩⟩
              rw [← some.inj hr]
              exact ⟨of_class_wellFormed s.cls, rfl⟩

end dart.type_flow
