import DartVM.TypeFlow.Lattice

namespace dart.type_flow
open dart.sorted_merge TFType
variable {C R A : Type} {h : TypeHierarchy C R} [DecidableEq C] [DecidableEq R] [DecidableEq A]

section
variable {same : Identity C R A} {s t r : TFType C R A}
  {call : TFType C R A → TFType C R A → Checked (TFType C R A)} {xs ys : List (ConcreteType C R A)}
  {type : ConcreteType C R A} {cls : C}

/-- The operand of lower order is asked. -/
lemma intersection_swap (n : Nat) (hord : t.order < s.order) :
    intersection h same (n + 1) s t = intersection h same n t s := by
  have hdiff := same.not_identical_of_order hord
  cases s with
  | empty => cases t <;> simp [order] at hord
  | nullable b | any | concrete type => exact if_pos hord
  | set types | cone cls | wide_cone cls => exact (if_neg hdiff).trans (if_pos hord)

/-- The classes of both sets remain. -/
lemma set_intersection_set (hxs : (set xs).WellFormed h) (hys : (set ys).WellFormed h) :
    ∃ r, set_intersection h same call xs (.set ys) = .ok r ∧ Meets h (.set xs) (.set ys) r := by
  rw [set_intersection]
  split_ifs with hsame hord
  · exact ⟨_, rfl, .left hxs⟩
  · exact absurd hord (lt_irrefl _)
  · obtain ⟨zs, hzs, hwf, hden⟩ := intersect_lists_spec hxs.2 hys.2
    rw [hzs]
    exact ⟨_, rfl, of_list_wellFormed hwf, fun o ho hxo hyo => of_list_contains.mpr (hden o ho hxo hyo)⟩

/-- What is returned for two concrete types. -/
lemma concrete_intersection_spec {x y : ConcreteType C R A} (hx : x.WellFormed h) (hy : y.WellFormed h) :
    ∃ result, x.intersection h y = .ok result ∧ Meets h (.concrete x) (.concrete y) (of_list result.toList) := by
  obtain ⟨result, hres, hspec⟩ := ConcreteType.intersection_spec hx hy
  refine ⟨result, hres, of_list_wellFormed ?_, fun o ho hxo hyo => of_list_contains.mpr ?_⟩
  · cases result with
    | none => exact ⟨List.Pairwise.nil, by simp⟩
    | some r => exact ⟨List.pairwise_singleton _ _, by simpa using (hspec.wellFormed r rfl).1⟩
  · obtain ⟨r, rfl, hr⟩ := hspec.denotes o ho.2 hxo hyo
    exact ⟨r, List.mem_singleton.mpr rfl, hr⟩

/-- The loop finds the type with the class of the concrete one, if there is one. -/
lemma intersect_set_with_concrete_spec (hxs : ListWellFormed h xs) (hty : type.WellFormed h) :
    ∃ r, intersect_set_with_concrete h type xs = .ok r ∧ Meets h (.set xs) (.concrete type) r := by
  induction xs with
  | nil => exact ⟨_, rfl, .empty fun o _ ⟨x, hx, _⟩ => absurd hx List.not_mem_nil⟩
  | cons x xs ih =>
    have hsort := List.pairwise_cons.mp hxs.1
    rw [intersect_set_with_concrete]
    split_ifs with hequals hcls
    · exact ⟨.concrete type, rfl, hty, fun o _ _ hto => hto⟩
    · obtain ⟨result, hres, hwf, hmem⟩ := concrete_intersection_spec (hxs.2 x List.mem_cons_self) hty
      rw [hres]
      refine ⟨_, rfl, hwf, fun o ho hxo hto => hmem o ho ?_ hto⟩
      -- The class of the concrete type is only that of the first element.
      obtain ⟨y, hy, hyo⟩ := hxo
      rcases List.mem_cons.mp hy with rfl | hy
      · exact hyo
      have hlt : h.id x.cls < h.id y.cls := hsort.1 y hy
      rw [hcls, ← hto.1, ← hyo.1] at hlt
      exact absurd hlt (lt_irrefl _)
    · obtain ⟨r, hr, hwf, hmem⟩ := ih ⟨hsort.2, fun y hy => hxs.2 y (List.mem_cons_of_mem _ hy)⟩
      refine ⟨r, hr, hwf, fun o ho hxo hto => hmem o ho ?_ hto⟩
      obtain ⟨y, hy, hyo⟩ := hxo
      rcases List.mem_cons.mp hy with rfl | hy
      · exact absurd (hyo.1.symm.trans hto.1) hcls
      · exact ⟨y, hy, hyo⟩

lemma set_intersection_concrete (hxs : (set xs).WellFormed h) (hty : type.WellFormed h) :
    ∃ r, set_intersection h same call xs (.concrete type) = .ok r ∧ Meets h (.set xs) (.concrete type) r := by
  rw [set_intersection]
  split_ifs with hsame hord
  · exact ⟨_, rfl, .left hxs⟩
  · exact absurd hord (by simp [order])
  · exact intersect_set_with_concrete_spec hxs.2 hty

section
omit [DecidableEq R] [DecidableEq A]

/-- The types of the set below the class remain. -/
lemma wide_cone_intersection_set (hxs : (set xs).WellFormed h) :
    ∃ r, wide_cone_intersection h same call cls (.set xs) = .ok r ∧ Meets h (.wide_cone cls) (.set xs) r := by
  have hlist : ListWellFormed h (xs.filter fun t => is_subtype_of h t.cls cls) :=
    ⟨hxs.2.1.sublist List.filter_sublist, fun x hx => hxs.2.2 x (List.mem_of_mem_filter hx)⟩
  have hmeets : Meets h (.wide_cone cls) (.set xs) (of_list (xs.filter fun t => is_subtype_of h t.cls cls)) := by
    refine ⟨of_list_wellFormed hlist, ?_⟩
    rintro o _ hcone ⟨x, hx, hxo⟩
    exact of_list_contains.mpr ⟨x, List.mem_filter.mpr ⟨hx, hxo.mem_supertypes_iff.mp hcone⟩, hxo⟩
  rw [wide_cone_intersection]
  split_ifs with hsame hord
  · exact ⟨_, rfl, .left trivial⟩
  · exact absurd hord (by simp [order])
  · generalize xs.filter (fun t => is_subtype_of h t.cls cls) = list at hmeets
    split
    · exact ⟨_, rfl, hmeets⟩
    · exact ⟨_, rfl, hmeets⟩
    · next hempty hsing =>
      split_ifs
      · exact ⟨_, rfl, .right hxs⟩
      · have hlen : 2 ≤ list.length := by
          rcases list with _ | ⟨type, _ | ⟨y, list⟩⟩
          · exact absurd rfl hempty
          · exact absurd rfl (hsing type)
          · simp
        rw [of_list_eq_set hlen] at hmeets
        exact ⟨_, rfl, hmeets⟩

lemma wide_cone_intersection_spec (ht : t.WellFormed h) (hord : (wide_cone cls : TFType C R A).order ≤ t.order) :
    ∃ r, wide_cone_intersection h same call cls t = .ok r ∧ Meets h (.wide_cone cls) t r := by
  cases t with
  | empty | nullable b | any => simp [order] at hord
  | set types => exact wide_cone_intersection_set ht
  | wide_cone other | cone other =>
    rw [wide_cone_intersection]
    split_ifs with hsame hord hother
    · exact ⟨_, rfl, .left trivial⟩
    · exact absurd hord (by simp [order])
    · exact ⟨_, rfl, .right trivial⟩
    · exact ⟨_, rfl, .left trivial⟩
  | concrete type =>
    rw [wide_cone_intersection]
    split_ifs with hsame hord hother
    · exact ⟨_, rfl, .left trivial⟩
    · exact absurd hord (by simp [order])
    · exact ⟨_, rfl, .right ht⟩
    · exact ⟨_, rfl, .empty fun o _ hcone ho => hother (ho.mem_supertypes_iff.mp hcone)⟩

/-- A cone answers itself or is specialized first. -/
lemma cone_intersection_spec (ht : t.WellFormed h) (hord : (cone cls : TFType C R A).order ≤ t.order) :
    (∃ r, cone_intersection h same call cls t = .ok r ∧ Meets h (.cone cls) t r) ∨
      cone_intersection h same call cls t = call (specialize_type_cone h cls true) t := by
  cases t with
  | cone other =>
    rw [cone_intersection]
    split_ifs with hsame hord hcls hother hthis
    · exact .inl ⟨_, rfl, .left trivial⟩
    · exact absurd hord (lt_irrefl _)
    · exact .inl ⟨_, rfl, .left trivial⟩
    · exact .inl ⟨_, rfl, .right trivial⟩
    · exact .inl ⟨_, rfl, .left trivial⟩
    · exact .inr rfl
  | concrete type =>
    rw [cone_intersection]
    split_ifs with hsame hord hother
    · exact .inl ⟨_, rfl, .left trivial⟩
    · exact absurd hord (by simp [order])
    · exact .inl ⟨_, rfl, .right ht⟩
    · exact .inl ⟨_, rfl, .empty fun o _ hcone ho => hother (ho.mem_supertypes_iff.mp hcone)⟩
  | _ => simp [order] at hord

end

/-- What the cases of `intersection` do, for types that are not nullable. -/
lemma intersection_dispatch : Dispatch h (intersection h same) (Meets (A := A) h) where
  symm s t r := Meets.symm
  swap n s t := intersection_swap n
  direct n s t hs ht hs' ht' hord := by
    cases s with
    | empty => exact ⟨_, rfl, .left trivial⟩
    | nullable b | cone cls => exact absurd hs' id
    | any => exact ⟨_, if_neg (Nat.not_lt.mpr hord), .right ht⟩
    | wide_cone cls => exact wide_cone_intersection_spec ht hord
    | set xs =>
      cases t with
      | set ys => exact set_intersection_set hs ht
      | concrete type => exact set_intersection_concrete hs ht
      | cone cls => exact absurd ht' id
      | _ => simp [order] at hord
    | concrete x =>
      cases t with
      | concrete y =>
        obtain ⟨result, hres, hmeets⟩ := concrete_intersection_spec hs ht
        refine ⟨_, ?_, hmeets⟩
        rw [intersection, concrete_intersection, hres]
        rfl
      | _ => simp [order] at hord
  cone n s cls hs hs' hord := by
    cases s with
    | empty => exact .inl ⟨_, rfl, .left trivial⟩
    | nullable b | cone cls => exact absurd hs' id
    | any => exact .inl ⟨_, rfl, .right trivial⟩
    | wide_cone cls => exact .inl (wide_cone_intersection_spec trivial (by simp [order]))
    | set xs =>
      by_cases hsame : same.identical (.set xs) (.cone cls) = true
      · cases same.eq_of_identical _ _ hsame
      · exact .inr (if_neg hsame)
    | concrete x => simp [order] at hord
  of_cone n cls t ht hord := cone_intersection_spec ht hord
  specialize cls t r hr := by
    obtain ⟨-, -, hmem⟩ := specialize_type_cone_spec cls
    exact ⟨hr.1, fun o ho hs ht => hr.2 o ho (hmem o ho hs) ht⟩

end

section
variable {same : Identity C R A} {s t r : TFType C R A}

section
omit [DecidableEq C] [DecidableEq R] [DecidableEq A]

lemma TFType.denotes_null {t : TFType C R A} (ht : ∀ b, t ≠ .nullable b) : ¬t.Denotes h .null :=
  fun ⟨b, hb⟩ => ht b hb

lemma TFType.not_denotes_empty (v : Value C R A) : ¬(empty : TFType C R A).Denotes h v := by
  cases v with
  | null => exact denotes_null (by simp)
  | object o => exact id

/-- A well-formed type that contains the values of both types. -/
def UnitesValues (h : TypeHierarchy C R) (s t r : TFType C R A) : Prop :=
  r.WellFormed h ∧ ∀ v, v.Exists h → s.Denotes h v ∨ t.Denotes h v → r.Denotes h v

/-- A well-formed type that contains the common values of two types. -/
def MeetsValues (h : TypeHierarchy C R) (s t r : TFType C R A) : Prop :=
  r.WellFormed h ∧ ∀ v, v.Exists h → s.Denotes h v → t.Denotes h v → r.Denotes h v

/-- Without nullable types the instances are all values. -/
lemma Unites.values (hr : Unites h s t r) (hs : ∀ b, s ≠ .nullable b) (ht : ∀ b, t ≠ .nullable b) :
    UnitesValues h s t r := by
  refine ⟨hr.1, fun v hv hst => ?_⟩
  cases v with
  | null => exact hst.elim (fun hnull => absurd hnull (denotes_null hs)) fun hnull =>
      absurd hnull (denotes_null ht)
  | object o => exact hr.2 o hv hst

lemma Meets.values (hr : Meets h s t r) (hs : ∀ b, s ≠ .nullable b) : MeetsValues h s t r := by
  refine ⟨hr.1, fun v hv hsv htv => ?_⟩
  cases v with
  | null => exact absurd hsv (denotes_null hs)
  | object o => exact hr.2 o hv hsv htv

end

variable {s' t' : TFType C R A}

section
omit [DecidableEq C] [DecidableEq R] [DecidableEq A]

/-- The union of the base types is the union of the instances of the types. -/
lemma Unites.to_nullable (hr : Unites h s t r) (hs : ∀ o, s'.Contains h o ↔ s.Contains h o)
    (ht : ∀ o, t'.Contains h o ↔ t.Contains h o) : UnitesValues h s' t' r.to_nullable := by
  refine ⟨to_nullable_wellFormed hr.1, fun v hv hst => ?_⟩
  cases v with
  | null => exact r.exists_to_nullable_eq
  | object o => exact to_nullable_contains.mpr (hr.2 o hv (hst.imp (hs o).mp (ht o).mp))

lemma Meets.to_nullable (hr : Meets h s t r) (hs : ∀ o, s'.Contains h o ↔ s.Contains h o)
    (ht : ∀ o, t'.Contains h o ↔ t.Contains h o) : MeetsValues h s' t' r.to_nullable := by
  refine ⟨to_nullable_wellFormed hr.1, fun v hv hsv htv => ?_⟩
  cases v with
  | null => exact r.exists_to_nullable_eq
  | object o => exact to_nullable_contains.mpr (hr.2 o hv ((hs o).mp hsv) ((ht o).mp htv))

end

/-- A nullable type is united with the base type of the other one. -/
lemma union_nullable (hs : (nullable s).WellFormed h) (ht : t.WellFormed h) :
    Settles (union h same) (UnitesValues h) 7 (.nullable s) t := by
  intro n hn
  obtain ⟨m, rfl⟩ := Nat.exists_eq_add_of_le' hn
  cases t with
  | nullable b =>
    obtain ⟨r, hr, hspec⟩ := union_dispatch.settles hs.2 ht.2 hs.1 ht.1 (m + 6) (by omega)
    refine ⟨r.to_nullable, ?_, hspec.to_nullable (fun _ => Iff.rfl) fun _ => Iff.rfl⟩
    rw [union, nullable_union, if_neg (by simp [order]), hr, ok_bind, pure_eq_ok]
  | empty => exact ⟨_, rfl, hs, fun v _ hst => hst.resolve_right (not_denotes_empty v)⟩
  | _ =>
    obtain ⟨r, hr, hspec⟩ := union_dispatch.settles hs.2 ht hs.1 (by simp) (m + 6) (by omega)
    refine ⟨r.to_nullable, ?_, hspec.to_nullable (fun _ => Iff.rfl) fun _ => Iff.rfl⟩
    rw [union, nullable_union, if_neg (by simp [order]), hr, ok_bind, pure_eq_ok]
    simp

/-- `null` remains if both types are nullable. -/
lemma intersection_nullable (hs : (nullable s).WellFormed h) (ht : t.WellFormed h) :
    Settles (intersection h same) (MeetsValues h) 7 (.nullable s) t := by
  intro n hn
  obtain ⟨m, rfl⟩ := Nat.exists_eq_add_of_le' hn
  cases t with
  | nullable b =>
    obtain ⟨r, hr, hspec⟩ := intersection_dispatch.settles hs.2 ht.2 hs.1 ht.1 (m + 6) (by omega)
    refine ⟨r.to_nullable, ?_, hspec.to_nullable (fun _ => Iff.rfl) fun _ => Iff.rfl⟩
    rw [intersection, nullable_intersection, if_neg (by simp [order]), hr, ok_bind, pure_eq_ok]
  | empty => exact ⟨.empty, rfl, trivial, fun v _ _ hempty => hempty⟩
  | _ =>
    obtain ⟨r, hr, hspec⟩ := intersection_dispatch.settles hs.2 ht hs.1 (by simp) (m + 6) (by omega)
    refine ⟨r, ?_, hspec.1, fun v hv hsv htv => ?_⟩
    · rw [intersection, nullable_intersection, if_neg (by simp [order]), hr]
      simp
    · cases v with
      | null => exact absurd htv (denotes_null (by simp))
      | object o => exact hspec.2 o hv hsv htv

omit [DecidableEq C] [DecidableEq R] [DecidableEq A] in
/-- A type that is not nullable and precedes the nullable types is the empty one. -/
lemma TFType.eq_empty_or_lt_order (hs : ∀ b, s ≠ .nullable b) : s = .empty ∨ (nullable t).order < s.order := by
  cases s with
  | empty => exact .inl rfl
  | nullable b => exact absurd rfl (hs b)
  | _ => exact .inr (by simp [order])

/-- Eight nested calls are enough for a union. -/
lemma union_settles (hs : s.WellFormed h) (ht : t.WellFormed h) : Settles (union h same) (UnitesValues h) 8 s t := by
  intro n hn
  obtain ⟨m, rfl⟩ := Nat.exists_eq_add_of_le' hn
  by_cases hs' : ∃ b, s = .nullable b
  · obtain ⟨b, rfl⟩ := hs'
    exact union_nullable hs ht (m + 8) (by omega)
  have hs'' : ∀ b, s ≠ .nullable b := fun b hb => hs' ⟨b, hb⟩
  by_cases ht' : ∃ b, t = .nullable b
  · obtain ⟨b, rfl⟩ := ht'
    rcases eq_empty_or_lt_order hs'' with rfl | hord
    · exact ⟨_, rfl, ht, fun v _ hst => hst.resolve_left (not_denotes_empty v)⟩
    rw [union_swap (m + 7) hord]
    obtain ⟨r, hr, hwf, hden⟩ := union_nullable ht hs (m + 7) (by omega)
    exact ⟨r, hr, hwf, fun v hv hst => hden v hv hst.symm⟩
  · have ht'' : ∀ b, t ≠ .nullable b := fun b hb => ht' ⟨b, hb⟩
    obtain ⟨r, hr, hspec⟩ := union_dispatch.settles hs ht hs'' ht'' (m + 8) (by omega)
    exact ⟨r, hr, hspec.values hs'' ht''⟩

/-- Eight nested calls are enough for an intersection. -/
lemma intersection_settles (hs : s.WellFormed h) (ht : t.WellFormed h) :
    Settles (intersection h same) (MeetsValues h) 8 s t := by
  intro n hn
  obtain ⟨m, rfl⟩ := Nat.exists_eq_add_of_le' hn
  by_cases hs' : ∃ b, s = .nullable b
  · obtain ⟨b, rfl⟩ := hs'
    exact intersection_nullable hs ht (m + 8) (by omega)
  have hs'' : ∀ b, s ≠ .nullable b := fun b hb => hs' ⟨b, hb⟩
  by_cases ht' : ∃ b, t = .nullable b
  · obtain ⟨b, rfl⟩ := ht'
    rcases eq_empty_or_lt_order hs'' with rfl | hord
    · exact ⟨_, rfl, trivial, fun v _ hempty _ => hempty⟩
    rw [intersection_swap (m + 7) hord]
    obtain ⟨r, hr, hwf, hden⟩ := intersection_nullable ht hs (m + 7) (by omega)
    exact ⟨r, hr, hwf, fun v hv hsv htv => hden v hv htv hsv⟩
  · have ht'' : ∀ b, t ≠ .nullable b := fun b hb => ht' ⟨b, hb⟩
    obtain ⟨r, hr, hspec⟩ := intersection_dispatch.settles hs ht hs'' ht'' (m + 8) (by omega)
    exact ⟨r, hr, hspec.values hs''⟩

end

/-- The union and the intersection of well-formed types return well-formed types, and lose no value that the
program can create. -/
theorem type_lattice_sound (h : TypeHierarchy C R) (same : Identity C R A) (a b : TFType C R A) (ha : a.WellFormed h)
    (hb : b.WellFormed h) (fuel : Nat) (hfuel : 8 ≤ fuel) : (∃ r, union h same fuel a b = .ok r ∧ r.WellFormed h ∧
      ∀ v, v.Exists h → a.Denotes h v ∨ b.Denotes h v → r.Denotes h v) ∧
    ∃ r, intersection h same fuel a b = .ok r ∧ r.WellFormed h ∧
      ∀ v, v.Exists h → a.Denotes h v → b.Denotes h v → r.Denotes h v :=
  ⟨union_settles ha hb fuel hfuel, intersection_settles ha hb fuel hfuel⟩

/-- A hierarchy with `Object` and a class with one type parameter. -/
def list_hierarchy : TypeHierarchy Bool Nat where
  id cls := cls.toNat
  id_injective c d := by cases c <;> cases d <;> simp
  supertypes cls := if cls then [true, false] else [false]
  mem_supertypes := by decide
  supertypes_subset := by decide
  object_class := false
  num_type_parameters cls := cls.toNat
  flattened_type_arguments_for _ args := args
  num_flattened_type_arguments cls := cls.toNat
  length_flattened _ _ hlength := hlength
  take_flattened _ args hlength := by rw [← hlength, List.take_length]
  allocated_classes := [false, true]
  nodup_allocated := by decide
  has_dynamically_extendable_subtypes _ := false
  max_allocated_types_in_set_specialization := 128

/-- Types with equal contents are the same object. -/
def structural_identity : Identity Bool Nat Unit where
  identical s t := decide (s = t)
  eq_of_identical _ _ := of_decide_eq_true
  binary_search types other := types.findIdx? fun type => type.cls = other.cls

theorem type_lattice_sound_list : (∃ r, union list_hierarchy structural_identity 8 (.nullable (.cone true))
        (.concrete ⟨true, some [.runtime 0], none⟩) = .ok r ∧ r.WellFormed list_hierarchy ∧
      ∀ v, v.Exists list_hierarchy → (TFType.nullable (.cone true)).Denotes list_hierarchy v ∨
        (TFType.concrete ⟨true, some [.runtime 0], none⟩).Denotes list_hierarchy v → r.Denotes list_hierarchy v) ∧
    ∃ r, intersection list_hierarchy structural_identity 8 (.nullable (.cone true))
        (.concrete ⟨true, some [.runtime 0], none⟩) = .ok r ∧ r.WellFormed list_hierarchy ∧
      ∀ v, v.Exists list_hierarchy → (TFType.nullable (.cone true)).Denotes list_hierarchy v →
        (TFType.concrete ⟨true, some [.runtime 0], none⟩).Denotes list_hierarchy v → r.Denotes list_hierarchy v := by
  have hcone : (nullable (.cone true) : TFType Bool Nat Unit).WellFormed list_hierarchy := ⟨by simp, trivial⟩
  have hconcrete : (concrete ⟨true, some [.runtime 0], none⟩ : TFType Bool Nat Unit).WellFormed list_hierarchy := by
    intro args hargs
    cases hargs
    exact ⟨rfl, by decide, rfl, rfl, fun actual _ hact => hact⟩
  exact type_lattice_sound list_hierarchy structural_identity _ _ hcone hconcrete 8 le_rfl

end dart.type_flow
