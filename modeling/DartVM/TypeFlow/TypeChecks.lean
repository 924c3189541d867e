import DartVM.TypeFlow.RuntimeTypes

namespace dart.type_flow
open RuntimeType List Except DartType

open dart.kernel (Nullability)
variable {C O A : Type}

lemma represented_types_eq_map {h : TypeHierarchy C (DartType C)} (types : List (RuntimeType C)) :
    represented_types h types = types.map (represented_type h) := by
  induction types with
  | nil => rfl
  | cons type types ih => rw [represented_types, ih, map_cons]

lemma all_wellFormed_iff {h : TypeHierarchy C (DartType C)} {types : List (RuntimeType C)} :
    all_wellFormed h types ↔ ∀ type ∈ types, type.WellFormed h := by
  induction types with
  | nil => simp [all_wellFormed]
  | cons type types ih => simp [all_wellFormed, ih]

variable [DecidableEq C] [DecidableEq O] {h : RuntimeHierarchy C O}

section

/-- The type arguments that an interface type stands for. -/
def immediate_type_args (h : RuntimeHierarchy C O) (c : C) (type_args : List (RuntimeType C)) : List (DartType C) :=
  (represented_types h type_args).take (h.num_type_parameters c)

lemma represented_interface (c : C) (n : Nullability) (type_args : List (RuntimeType C)) :
    (interface c n type_args).represented_type h =
      .interface c n (immediate_type_args h c type_args) := by
  rw [represented_type, immediate_type_args]

variable {n : Nullability} {type_args : List (RuntimeType C)} {offset : Nat} {c d : C}

lemma RuntimeType.WellFormed.length_immediate {c : C} (hwf : (interface c n type_args).WellFormed h) :
    (immediate_type_args h c type_args).length = h.num_type_parameters c := by
  rw [immediate_type_args, length_take, represented_types_eq_map, length_map, Nat.min_eq_left hwf.2.1]

/-- The type arguments that the code uses stand for the flattened ones. -/
lemma RuntimeType.WellFormed.represents {c : C} (hwf : (interface c n type_args).WellFormed h) :
    List.Forall₂ (TypeArg.Represents h) (usable_type_args h c type_args)
      (h.flattened_type_arguments_for c (immediate_type_args h c type_args)) := by
  obtain ⟨-, hlen, hargs, hall⟩ := hwf
  split_ifs at hargs with h0
  · rw [hargs, immediate_type_args, represented_types, take_nil]
    exact h.represents_non_generic c h0
  · have hne : type_args.isEmpty = false := by
      rw [isEmpty_eq_false_iff]
      rintro rfl
      exact h0 (Nat.le_zero.mp hlen)
    rw [immediate_type_args, ← hargs, usable_type_args, hne, if_neg Bool.false_ne_true, represented_types_eq_map]
    rw [forall₂_map_left_iff, forall₂_map_right_iff, forall₂_same]
    exact fun type hty => ⟨all_wellFormed_iff.mp hall type hty, rfl⟩

omit [DecidableEq O] in
lemma lookup_eq_of_mem {supertypes : List (C × List O)} {d : C} {args : List O} (hmem : (d, args) ∈ supertypes)
    (hunique : ∀ args', (d, args') ∈ supertypes → args' = args) : supertypes.lookup d = some args := by
  induction supertypes with
  | nil => cases hmem
  | cons intf supertypes ih =>
    obtain ⟨c, args'⟩ := intf
    by_cases hcd : d = c
    · rw [lookup_cons, hcd, beq_self_eq_true]
      exact congrArg some (hunique args' (by rw [hcd]; exact (.head _)))
    rw [lookup_cons, beq_false_of_ne hcd]
    refine ih ((mem_cons.mp hmem).resolve_left fun heq => hcd (Prod.mk.inj heq).1) fun args'' hargs'' => ?_
    exact hunique args'' (.tail _ hargs'')

/-- The offset of a supertype in the flattened type arguments. -/
lemma type_arguments_as_eq {args : List (DartType C)}
    (hoff : generic_interface_offset_for h c d = .ok offset) (hargs : args.length = h.num_type_parameters c) :
    type_arguments_as h c args d = ((h.flattened_type_arguments_for c args).drop offset).take (h.num_type_parameters d) := by
  rw [generic_interface_offset_for] at hoff
  split at hoff
  · next found hfound =>
    obtain rfl : found = offset := ok.inj hoff
    rw [type_arguments_as, supertype_arguments]
    split_ifs with hcd
    · rw [interface_offset, if_pos hcd] at hfound
      rw [← Option.some.inj hfound, drop_zero, ← hcd, h.take_flattened c args hargs]
    · obtain ⟨params, hmem, hstarts⟩ := interface_offset_spec hcd hfound
      rw [lookup_eq_of_mem hmem fun args' hargs' => h.generic_supertypes_unique c d args' params hargs' hmem,
        h.flattened_eq c args hargs, ← map_drop, ← map_take, ← h.length_supertype_arguments c d params hmem,
        prefix_iff_eq_take.mp hstarts]
      simp
  · cases hoff

/-- From the offset of a supertype on, they stand for its type arguments. -/
lemma RuntimeType.WellFormed.represents_at (hwf : (interface c n type_args).WellFormed h)
    (hoff : generic_interface_offset_for h c d = .ok offset) : List.Forall₂ (TypeArg.Represents h)
      (((usable_type_args h c type_args).drop offset).take (h.num_type_parameters d))
      (type_arguments_as h c (immediate_type_args h c type_args) d) := by
  rw [type_arguments_as_eq hoff hwf.length_immediate]
  exact List.forall₂_take _ (List.forall₂_drop offset hwf.represents)

end

/-- Every type lies below one that accepts all instances and `null`. -/
lemma lies_below_true {accepts : C → List (DartType C) → Bool} (hacc : ∀ c args, accepts c args = true) :
    ∀ s : DartType C, s.lies_below h true accepts = true
  | .dynamic | .void | .never _ | .null | .interface _ _ _ => by simp [lies_below, hacc]
  | .future_or a _ => by simp [lies_below, hacc, lies_below_true hacc a]
termination_by structural s => s

/-- A type that admits `null` and all instances is a supertype of all types. -/
lemma is_subtype_of_top {t : DartType C} (hnull : t.admits_null h .subtype = true)
    (hacc : ∀ c args, t.accepts h c args = true) (s : DartType C) : s.is_subtype h t = true := by
  rw [is_subtype, hnull]
  exact lies_below_true hacc s

lemma accepts_object (n : Nullability) (c : C) (args : List (DartType C)) :
    (DartType.interface h.object_class n []).accepts h c args = true := by
  rw [accepts, all_accepted, Bool.and_true]
  exact is_subtype_of_iff.mpr (h.object_supertype c)

variable (h)

mutual

/-- Where the answer rests on a comparison with a `FutureOr`, the `FutureOr` admits `null` if the other type is
nullable, and the comparison of the type arguments is right or the other alternative of the `FutureOr` applies. -/
def RuntimeType.Guarded (this runtime_type : RuntimeType C) : Prop :=
  match runtime_type with
  | .future_or type_arg n =>
    (this.nullability = .nullable →
      ((RuntimeType.future_or type_arg n).represented_type h).admits_null h .subtype = true) ∧
    match this with
    | .interface c m args =>
      if c = h.future_class then
        (∀ a ∈ args.head?, a.Guarded type_arg) ∨
          (type_arg.represented_type h).accepts h c (immediate_type_args h c args) = true
      else
        (RuntimeType.interface c m args).Guarded type_arg ∨
          (is_subtype_of h.toTypeHierarchy c h.future_class = true ∧
            ∀ a ∈ type_arguments_as h c (immediate_type_args h c args) h.future_class,
              a.is_subtype h (type_arg.represented_type h) = true)
    | .future_or a _ =>
      a.Guarded type_arg ∨
        ((type_arg.represented_type h).accepts h h.future_class [a.represented_type h] =
          true ∧
          (a.represented_type h).is_subtype h
            ((RuntimeType.future_or type_arg n).represented_type h) = true)
    | _ => True
  | .interface d _ type_args =>
    match this with
    | .interface c _ args =>
      ∀ offset, generic_interface_offset_for h c d = .ok offset →
        all_guarded ((usable_type_args h c args).drop offset) (h.num_type_parameters d) type_args
    | _ => True
  | _ => True
termination_by structural runtime_type

def all_guarded (usable_type_args : List (TypeArg (RuntimeType C))) (count : Nat) (type_args : List (RuntimeType C)) :
    Prop :=
  match type_args, count, usable_type_args with
  | type_arg :: type_args, count + 1, ta :: usable_type_args =>
    (match ta with
      | .unknown => True
      | .runtime ta => ta.Guarded type_arg) ∧ all_guarded usable_type_args count type_args
  | _, _, _ => True
termination_by structural type_args

end

variable {h}

/-- A comparison is decided correctly up to the guards. -/
def GuardDecides (h : RuntimeHierarchy C O) (s r : RuntimeType C) : Prop :=
  s.is_subtype_of_runtime_type h r = .ok true →
    ((s.represented_type h).is_subtype h (r.represented_type h) = true ↔ s.Guarded h r)

section
variable {c d : C} {m n : Nullability} {args type_args : List (RuntimeType C)}

lemma admits_null_of_ne (hn : n ≠ .undetermined) (hnull : n ≠ .non_nullable) (type_arguments : List (DartType C)) :
    (interface d n type_arguments).admits_null h .subtype = true := by
  cases n with
  | undetermined => exact absurd rfl hn
  | non_nullable => exact absurd rfl hnull
  | _ => simp [admits_null]

lemma represented_object (n : Nullability) (type_args : List (RuntimeType C)) :
    (interface h.object_class n type_args).represented_type h = .interface h.object_class n [] := by
  rw [represented_type, h.object_non_generic, take_zero]

/-- Every type is a subtype of the nullable type of `Object`. -/
lemma is_subtype_object (hr : (interface h.object_class n type_args).WellFormed h)
    (hnull : n ≠ .non_nullable) (s : DartType C) :
    s.is_subtype h ((interface h.object_class n type_args).represented_type h) = true := by
  rw [represented_object]
  exact is_subtype_of_top (admits_null_of_ne hr.1 hnull []) (accepts_object n) s

/-- Every type is below one for which an unknown type argument passes. -/
lemma unknown_is_subtype (r : RuntimeType C) (hr : r.WellFormed h)
    (hunknown : unknown_is_subtype_of_runtime_type h r = true) (s : DartType C) :
    s.is_subtype h (r.represented_type h) = true := by
  cases r with
  | dynamic | void => exact is_subtype_of_top rfl (fun _ _ => by simp [represented_type, accepts]) s
  | interface d n args =>
    simp only [unknown_is_subtype_of_runtime_type, is_dynamic_or_void, is_object, Bool.false_or,
      Bool.and_eq_true, decide_eq_true_iff, nullability] at hunknown
    obtain ⟨rfl, hnull⟩ := hunknown
    exact is_subtype_object hr (of_decide_eq_true hnull) s
  | _ => simp [unknown_is_subtype_of_runtime_type, is_dynamic_or_void, is_object] at hunknown

lemma ok_ite_false {p : Prop} [Decidable p] {x : Checked Bool} (hcode : (if p then .ok false else x) = .ok true) :
    ¬p ∧ x = .ok true := by
  split_ifs at hcode with hp
  · cases hcode
  · exact ⟨hp, hcode⟩

/-- What is compared for two interface types. -/
def InterfaceArgumentsDecided (h : RuntimeHierarchy C O) (d : C) (type_args : List (RuntimeType C)) : Prop :=
  ∀ usable actual, List.Forall₂ (TypeArg.Represents h) (usable.take (h.num_type_parameters d)) actual →
    all_subtypes h usable (h.num_type_parameters d) type_args = .ok true →
    (all_accepted h (immediate_type_args h d type_args) actual = true ↔
      all_guarded h usable (h.num_type_parameters d) type_args)

/-- For classes below each other, the type arguments decide. -/
lemma is_subtype_interfaces_iff (hn : n ≠ .undetermined) (hnull : ¬(m = .nullable ∧ n = .non_nullable))
    (hsub : is_subtype_of h.toTypeHierarchy c d = true) (as bs : List (DartType C)) :
    (interface c m as).is_subtype h (.interface d n bs) = true ↔
      all_accepted h bs (type_arguments_as h c as d) = true := by
  have hnullable : (decide (m ≠ .nullable) || (interface d n bs).admits_null h .subtype) = true := by
    by_cases hm : m = .nullable
    · rw [admits_null_of_ne hn (fun hne => hnull ⟨hm, hne⟩), Bool.or_true]
    · simp [hm]
  rw [is_subtype, lies_below, hnullable, Bool.true_and, accepts, hsub, Bool.true_and]

/-- Two interface types are compared by their classes and the type arguments of the supertype. -/
lemma guardDecides_interfaces (hs : (RuntimeType.interface c m args).WellFormed h)
    (hn : n ≠ .undetermined) (ih : InterfaceArgumentsDecided h d type_args) :
    GuardDecides h (.interface c m args) (.interface d n type_args) := by
  intro hcode
  obtain ⟨hnull, hcode⟩ := ok_ite_false hcode
  obtain ⟨hsub, hcode⟩ := ok_ite_false hcode
  rw [not_not] at hsub
  change ¬(m = .nullable ∧ n = .non_nullable) at hnull
  rw [represented_interface, represented_interface, is_subtype_interfaces_iff hn hnull hsub, Guarded]
  by_cases h0 : h.num_type_parameters d = 0
  · simp [h0, immediate_type_args, all_accepted, all_guarded]
  rw [if_neg h0] at hcode
  obtain ⟨offset, hoff, hcode⟩ := bind_eq_ok_iff.mp hcode
  rw [ih _ _ (hs.represents_at hoff) hcode]
  exact ⟨fun hguard offset' hoff' => ok.inj (hoff.symm.trans hoff') ▸ hguard, fun hguard => hguard offset hoff⟩

/-- All kinds of types against an interface. -/
lemma guardDecides_interface (hr : (interface d n type_args).WellFormed h)
    (s : RuntimeType C) (hs : s.WellFormed h) (ih : InterfaceArgumentsDecided h d type_args) :
    GuardDecides h s (.interface d n type_args) := by
  have hn : n ≠ .undetermined := by
    exact hr.1
  have hobj : n ≠ .non_nullable → d = h.object_class → ∀ s : DartType C,
      s.is_subtype h ((interface d n type_args).represented_type h) = true := by
    rintro hnullable rfl s
    exact is_subtype_object hr hnullable s
  cases s with
  | interface c m args => exact guardDecides_interfaces hs hn ih
  | dynamic | void | future_or a m =>
    intro hcode
    obtain ⟨hnull, hcode⟩ := ok_ite_false hcode
    exact iff_of_true (hobj (fun hne => hnull ⟨rfl, hne⟩) (of_decide_eq_true (ok.inj hcode)) _) trivial
  | never m =>
    intro hcode
    obtain ⟨hnull, -⟩ := ok_ite_false hcode
    refine iff_of_true ?_ trivial
    rw [represented_type, is_subtype, lies_below, represented_type]
    by_cases hm : m = .nullable
    · rw [admits_null_of_ne hn (fun hne => hnull ⟨hm, hne⟩), Bool.or_true]
    · simp [hm]
  | null =>
    intro hcode
    obtain ⟨hnull, -⟩ := ok_ite_false hcode
    refine iff_of_true ?_ trivial
    rw [represented_type, is_subtype, represented_type]
    exact admits_null_of_ne hn (fun hne => hnull ⟨rfl, hne⟩) _

variable {c : C} {args : List (RuntimeType C)} {b : RuntimeType C} {a : RuntimeType C}

lemma accepts_future_or (t : DartType C) (n : Nullability) (c : C) (as : List (DartType C)) :
    (future_or t n).accepts h c as = (t.accepts h c as || (is_subtype_of h.toTypeHierarchy c h.future_class &&
        (type_arguments_as h c as h.future_class).all fun a => a.is_subtype h t)) := by
  rfl

lemma type_arguments_as_self (c : C) (as : List (DartType C)) : type_arguments_as h c as c = as := if_pos rfl

lemma accepts_future_or_future (t : DartType C) (n : Nullability) (as : List (DartType C)) :
    (future_or t n).accepts h h.future_class as =
      (t.accepts h h.future_class as || as.all fun a => a.is_subtype h t) := by
  rw [accepts_future_or, type_arguments_as_self, is_subtype_of_iff.mpr (h.mem_supertypes _), Bool.true_and]

/-- What lies below a type lies below every type that accepts more. -/
lemma lies_below_mono {p q : Bool} {accepts accepts' : C → List (DartType C) → Bool} (hnull : p = true → q = true)
    (hacc : ∀ c as, accepts c as = true → accepts' c as = true) :
    ∀ s : DartType C, s.lies_below h p accepts = true → s.lies_below h q accepts' = true
  | .dynamic, hs | .void, hs => by
    rw [lies_below, Bool.and_eq_true] at hs ⊢
    exact ⟨hnull hs.1, hacc _ _ hs.2⟩
  | .null, hs => hnull hs
  | .never n, hs => by
    rw [lies_below, Bool.or_eq_true] at hs ⊢
    exact hs.imp_right hnull
  | .interface c n as, hs => by
    rw [lies_below, Bool.and_eq_true, Bool.or_eq_true] at hs ⊢
    exact ⟨hs.1.imp_right hnull, hacc _ _ hs.2⟩
  | .future_or a n, hs => by
    rw [lies_below, Bool.and_eq_true, Bool.and_eq_true, Bool.or_eq_true] at hs ⊢
    exact ⟨⟨hs.1.1.imp_right hnull, hacc _ _ hs.1.2⟩, lies_below_mono hnull hacc a hs.2⟩
termination_by structural s => s

lemma is_subtype_future_or {s t : DartType C} (n : Nullability) (hst : s.is_subtype h t = true) :
    s.is_subtype h (.future_or t n) = true := by
  refine lies_below_mono (fun hnull => ?_) (fun c as hacc => ?_) s hst
  · rw [admits_null, hnull, Bool.or_true]
  · rw [accepts_future_or, hacc, Bool.true_or]

/-- Except for the class `Future`, a nullable type is only found to be a subtype of types that admit `null`. -/
lemma admits_null_of_interface (hc : c ≠ h.future_class) : ∀ r : RuntimeType C, r.WellFormed h →
    (interface c .nullable args).is_subtype_of_runtime_type h r = .ok true →
    (r.represented_type h).admits_null h .subtype = true
  | .dynamic, _, _ | .void, _, _ => by simp [represented_type, admits_null]
  | .null, _, _ => by simp [represented_type, admits_null]
  | .never n, _, hcode => by cases (ok_ite_false hcode).2
  | .interface d n type_args, hr, hcode => by
    rw [RuntimeType.WellFormed] at hr
    rw [represented_interface]
    exact admits_null_of_ne hr.1 (fun hne => (ok_ite_false hcode).1 ⟨rfl, hne⟩) _
  | .future_or b n, hr, hcode => by
    rw [RuntimeType.WellFormed] at hr
    have hcode := (ok_ite_false hcode).2
    have hb := admits_null_of_interface hc b hr ((if_neg hc).symm.trans hcode)
    rw [represented_type, admits_null, hb, Bool.or_true]
termination_by structural r => r

lemma nullable_or_iff {m : Nullability} {p : Bool} :
    (decide (m ≠ .nullable) || p) = true ↔ (m = .nullable → p = true) := by
  by_cases hm : m = .nullable <;> simp [hm]

/-- A `Future` against a `FutureOr`. -/
lemma guardDecides_future (ih : GuardDecides h a b) :
    GuardDecides h (.interface h.future_class m (a :: args)) (.future_or b n) := by
  intro hcode
  have hcode : a.is_subtype_of_runtime_type h b = .ok true := (if_pos rfl).symm.trans (ok_ite_false hcode).2
  have himmediate : immediate_type_args h h.future_class (a :: args) = [a.represented_type h] := by
    rw [immediate_type_args, h.future_generic, represented_types, take_succ_cons, take_zero]
  rw [Guarded, represented_interface, is_subtype, lies_below, Bool.and_eq_true, nullable_or_iff, represented_type]
  rw [if_pos rfl, accepts_future_or_future, himmediate, Bool.or_eq_true, all_cons, all_nil, Bool.and_true,
    ih hcode, or_comm]
  simp [nullability]

/-- Another class against a `FutureOr`. -/
lemma guardDecides_not_future (hc : c ≠ h.future_class) (hb : b.WellFormed h)
    (ih : GuardDecides h (.interface c m args) b) : GuardDecides h (.interface c m args) (.future_or b n) := by
  intro hcode
  have hcode : (interface c m args).is_subtype_of_runtime_type h b = .ok true :=
    (if_neg hc).symm.trans (ok_ite_false hcode).2
  have hatom : (b.represented_type h).accepts h c (immediate_type_args h c args) = true ↔
      (interface c m args).Guarded h b := by
    rw [← ih hcode, represented_interface, is_subtype, lies_below, Bool.and_eq_true, nullable_or_iff]
    refine (and_iff_right fun hm => ?_).symm
    rw [hm] at hcode
    exact admits_null_of_interface hc b hb hcode
  rw [Guarded, represented_interface, is_subtype, lies_below, Bool.and_eq_true, nullable_or_iff, represented_type]
  rw [if_neg hc, accepts_future_or, Bool.or_eq_true, hatom, Bool.and_eq_true, all_eq_true]
  rfl

/-- The type arguments of two `FutureOr` types are compared. -/
lemma guardDecides_future_ors (ih : GuardDecides h a b) : GuardDecides h (.future_or a m) (.future_or b n) := by
  intro hcode
  rw [represented_type, represented_type, is_subtype,
    lies_below, Bool.and_eq_true, Bool.and_eq_true, nullable_or_iff, accepts_future_or_future]
  rw [all_cons, all_nil, Bool.and_true, Bool.or_eq_true, ih hcode, and_assoc]
  refine and_congr_right fun _ => ⟨fun hr => ?_, fun hr => ?_⟩
  · exact hr.1.elim (fun hacc => .inr ⟨hacc, hr.2⟩) .inl
  · rcases hr with hguard | ⟨hacc, hsub⟩
    · exact ⟨.inr hguard, is_subtype_future_or n ((ih hcode).mpr hguard)⟩
    · exact ⟨.inl hacc, hsub⟩

/-- All kinds of types against a `FutureOr`. -/
lemma guardDecides_future_or (hb : b.WellFormed h)
    (ih : ∀ s, s.WellFormed h → GuardDecides h s b) (s : RuntimeType C)
    (hs : s.WellFormed h) : GuardDecides h s (.future_or b n) := by
  cases s with
  | dynamic | void => exact fun hcode => absurd (ok.inj (ok_ite_false hcode).2) Bool.false_ne_true
  | never m =>
    intro hcode
    rw [represented_type, is_subtype, lies_below, nullable_or_iff]
    exact ⟨fun hnull => ⟨hnull, trivial⟩, fun hguard => hguard.1⟩
  | null =>
    intro hcode
    exact ⟨fun hnull => ⟨fun _ => hnull, trivial⟩, fun hguard => hguard.1 rfl⟩
  | interface c m args =>
    by_cases hc : c = h.future_class
    · subst hc
      obtain ⟨-, hlen, -, hall⟩ := hs
      cases args with
      | nil =>
        rw [h.future_generic] at hlen
        cases hlen
      | cons a args => exact guardDecides_future (ih a (all_wellFormed_iff.mp hall a (.head _)))
    · exact guardDecides_not_future hc hb (ih _ hs)
  | future_or a m =>
    exact guardDecides_future_ors (ih a hs)

/-- The types without parts are compared correctly. -/
lemma guardDecides_top {r : RuntimeType C} (hr : r.is_dynamic_or_void = true) (s : RuntimeType C) :
    GuardDecides h s r := by
  intro _
  cases r with
  | dynamic | void =>
    exact iff_of_true (is_subtype_of_top rfl (fun _ _ => by simp [represented_type, accepts]) _) trivial
  | _ => cases hr

lemma guardDecides_never {n : Nullability} (hn : n ≠ .undetermined) (s : RuntimeType C) :
    GuardDecides h s (.never n) := by
  intro hcode
  refine iff_of_true ?_ trivial
  cases s with
  | never m =>
    rw [represented_type, represented_type, is_subtype, lies_below, nullable_or_iff]
    intro hm
    cases n with
    | undetermined => exact absurd rfl hn
    | non_nullable => exact absurd ⟨hm, rfl⟩ (ok_ite_false hcode).1
    | _ => simp [admits_null]
  | null =>
    have hn : n = .nullable := of_decide_eq_true (ok.inj (ok_ite_false hcode).2)
    simp [represented_type, is_subtype, lies_below, admits_null, hn]
  | _ => exact absurd (ok.inj (ok_ite_false hcode).2) Bool.false_ne_true

lemma guardDecides_null (s : RuntimeType C) : GuardDecides h s .null := by
  intro hcode
  refine iff_of_true ?_ trivial
  cases s with
  | never m | null => simp [represented_type, is_subtype, lies_below, admits_null]
  | _ => exact absurd (ok.inj (ok_ite_false hcode).2) Bool.false_ne_true

end

/-- The check of one type argument. -/
def TypeArg.passes (h : RuntimeHierarchy C O) (ta : TypeArg (RuntimeType C)) (type_arg : RuntimeType C) :
    Checked Bool :=
  match ta with
  | unknown => .ok (unknown_is_subtype_of_runtime_type h type_arg)
  | runtime ta => ta.is_subtype_of_runtime_type h type_arg

lemma all_subtypes_cons_iff {ta : TypeArg (RuntimeType C)} {usable : List (TypeArg (RuntimeType C))} {count : Nat}
    {type : RuntimeType C} {types : List (RuntimeType C)} : all_subtypes h (ta :: usable) (count + 1) (type :: types) =
    .ok true ↔ ta.passes h type = .ok true ∧ all_subtypes h usable count types = .ok true := by
  have hloop : all_subtypes h (ta :: usable) (count + 1) (type :: types) = do
      let subtype ← ta.passes h type
      if subtype then all_subtypes h usable count types else return false := by
    cases ta <;> rfl
  rw [hloop, bind_eq_ok_iff]
  constructor
  · rintro ⟨subtype, hsub, hrest⟩
    cases subtype with
    | false => cases hrest
    | true => exact ⟨hsub, hrest⟩
  · exact fun ⟨hta, hrest⟩ => ⟨true, hta, hrest⟩

mutual

/-- Where the code says that one type is a subtype of another, the guards decide whether it is. -/
lemma guardDecides (r : RuntimeType C) (hr : r.WellFormed h) (s : RuntimeType C)
    (hs : s.WellFormed h) : GuardDecides h s r := by
  cases r with
  | dynamic | void => exact guardDecides_top rfl s
  | never n =>
    exact guardDecides_never hr s
  | null => exact guardDecides_null s
  | interface d n type_args =>
    refine guardDecides_interface hr s hs fun usable actual hact hcode => ?_
    exact all_guardDecides type_args hr.2.2.2 usable _ actual hact hcode
  | future_or b n =>
    rw [WellFormed] at hr
    exact guardDecides_future_or hr (guardDecides b hr) s hs

/-- The same for the loop over type arguments. -/
lemma all_guardDecides (types : List (RuntimeType C)) (hall : all_wellFormed h types)
    (usable : List (TypeArg (RuntimeType C))) (count : Nat) (actual : List (DartType C))
    (hact : List.Forall₂ (TypeArg.Represents h) (usable.take count) actual)
    (hcode : all_subtypes h usable count types = .ok true) :
    all_accepted h ((represented_types h types).take count) actual = true ↔
      all_guarded h usable count types := by
  cases types with
  | nil =>
    rw [represented_types, take_nil]
    exact iff_of_true rfl trivial
  | cons type types =>
    cases count with
    | zero =>
      exact iff_of_true rfl trivial
    | succ count =>
      cases usable with
      | nil => cases hcode
      | cons ta usable =>
        cases hact with
        | @cons _ t _ actual hta hact =>
          obtain ⟨hta', hcode⟩ := all_subtypes_cons_iff.mp hcode
          rw [represented_types, take_succ_cons, all_accepted, Bool.and_eq_true,
            all_guardDecides types hall.2 usable count actual hact hcode]
          cases ta with
          | unknown =>
            exact ⟨fun hr => ⟨trivial, hr.2⟩, fun hr => ⟨unknown_is_subtype type hall.1 (ok.inj hta') t, hr.2⟩⟩
          | runtime s =>
            obtain ⟨hs, rfl⟩ := hta
            exact and_congr (guardDecides type hall.1 s hs hta') Iff.rfl

end
end dart.type_flow
