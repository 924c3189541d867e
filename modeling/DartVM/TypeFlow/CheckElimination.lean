import DartVM.TypeFlow.TypeChecks

namespace dart.type_flow
open List Option RuntimeType DartType Except ConcreteType

open dart.kernel (Nullability)
variable {C O A : Type} [DecidableEq C] [DecidableEq O] {h : RuntimeHierarchy C O} {r : RuntimeType C}
  {kind : SubtypeTestKind}

section

/-- A type argument as a set of types. -/
def TypeArg.represented (h : RuntimeHierarchy C O) : TypeArg (RuntimeType C) → TypeArg (DartType C)
  | unknown => unknown
  | runtime type => runtime (type.represented_type h)

def ConcreteType.represented (h : RuntimeHierarchy C O) (type : ConcreteType C (RuntimeType C) A) :
    ConcreteType C (DartType C) A :=
  ⟨type.cls, type.type_args.map (List.map (TypeArg.represented h)), type.attributes⟩

/-- The type with the types that its type arguments stand for. -/
def TFType.represented (h : RuntimeHierarchy C O) : TFType C (RuntimeType C) A → TFType C (DartType C) A
  | empty => empty
  | nullable base_type => nullable (base_type.represented h)
  | any => any
  | set types => set (types.map (ConcreteType.represented h))
  | cone cls => cone cls
  | wide_cone cls => wide_cone cls
  | concrete type => concrete (type.represented h)

/-- The run-time types in the type arguments are well-formed. -/
def ConcreteType.RuntimeWellFormed (h : RuntimeHierarchy C O) (type : ConcreteType C (RuntimeType C) A) : Prop :=
  ∀ args, type.type_args = some args → ∀ s, TypeArg.runtime s ∈ args → s.WellFormed h

def TFType.RuntimeWellFormed (h : RuntimeHierarchy C O) : TFType C (RuntimeType C) A → Prop
  | nullable base_type => base_type.RuntimeWellFormed h
  | set types => ∀ type ∈ types, type.RuntimeWellFormed h
  | concrete type => type.RuntimeWellFormed h
  | _ => True

variable {type : ConcreteType C (RuntimeType C) A} {o : Instance C (DartType C) A}
  {args : List (TypeArg (RuntimeType C))} {n : Nullability} {d : C}

/-- Type arguments that a concrete type allows are those it stands for. -/
lemma represents_of_allows {actual : List (DartType C)}
    (hargs : ∀ s, TypeArg.runtime s ∈ args → s.WellFormed h)
    (hallows : List.Forall₂ TypeArg.Allows (args.map (TypeArg.represented h)) actual) :
    List.Forall₂ (TypeArg.Represents h) args actual := by
  induction args generalizing actual with
  | nil =>
    cases hallows
    exact .nil
  | cons ta args ih =>
    cases hallows with
    | cons hta hallows =>
      refine .cons ?_ (ih (fun s hs => hargs s (.tail _ hs)) hallows)
      cases ta with
      | unknown => trivial
      | runtime s => exact ⟨hargs s (.head _), hta⟩

/-- The concrete type is compared correctly with a type. The instance only matters for the alternative of a
`FutureOr` that is not looked at. -/
def ConcreteType.Guarded (h : RuntimeHierarchy C O) (type : ConcreteType C (RuntimeType C) A)
    (o : Instance C (DartType C) A) : RuntimeType C → Prop
  | .interface d _ type_args =>
    ∀ usable offset, type.usable_type_args h = some usable → generic_interface_offset_for h type.cls d = .ok offset →
      all_guarded h (usable.drop offset) (h.num_type_parameters d) type_args
  | .future_or type_arg _ =>
    if is_subtype_of h.toTypeHierarchy type.cls h.future_class then
      (∀ args offset a, type.type_args = some args → generic_interface_offset_for h type.cls h.future_class = .ok offset →
        args[offset]? = some (.runtime a) → a.Guarded h type_arg) ∨
      (type_arg.represented_type h).accepts h o.cls o.type_args = true
    else type.Guarded h o type_arg
  | _ => True

/-- The loop for concrete types only refuses more than that for run-time types. -/
lemma all_subtypes_of_concrete {usable : List (TypeArg (RuntimeType C))} {count : Nat} {types : List (RuntimeType C)}
    (hcode : concrete_type_args_pass h usable count types = .ok true) : all_subtypes h usable count types = .ok true := by
  fun_induction concrete_type_args_pass h usable count types with
  | case1 usable types => cases types <;> rfl
  | case2 usable count type types => cases hcode
  | case3 usable count type types ta ih =>
    obtain ⟨subtype, hsub, hcode⟩ := bind_eq_ok_iff.mp hcode
    cases subtype with
    | false => cases hcode
    | true => exact all_subtypes_cons_iff.mpr ⟨hsub, ih hcode⟩
  | case4 usable types count hne => cases hcode

/-- An interface accepts the subclasses with fitting type arguments. -/
lemma accepts_interface {type_args : List (RuntimeType C)} (c : C) (as : List (DartType C)) :
    ((interface d n type_args).represented_type h).accepts h c as =
      (is_subtype_of h.toTypeHierarchy c d && all_accepted h (immediate_type_args h d type_args) (type_arguments_as h c as d)) := by
  rw [represented_interface, accepts]

lemma dynamic_is_subtype {r : RuntimeType C} (hr : r.WellFormed h)
    (hcode : dynamic.is_subtype_of_runtime_type h r = .ok true) (s : DartType C) :
    s.is_subtype h (r.represented_type h) = true := by
  refine unknown_is_subtype r hr ?_ s
  cases r with
  | dynamic => rfl
  | void => rfl
  | interface d n type_args =>
    obtain ⟨hnull, hobj⟩ := ok_ite_false hcode
    have hobj : d = h.object_class := of_decide_eq_true (ok.inj hobj)
    have hn : n ≠ .non_nullable := fun hn => hnull ⟨rfl, hn⟩
    simp [unknown_is_subtype_of_runtime_type, is_object, nullability, hobj, hn]
  | _ => exact absurd (ok.inj (ok_ite_false hcode).2) Bool.false_ne_true

/-- A concrete type and one of its instances. -/
structure ConcreteType.HasInstance (h : RuntimeHierarchy C O) (type : ConcreteType C (RuntimeType C) A)
    (o : Instance C (DartType C) A) : Prop where
  wellFormed : type.RuntimeWellFormed h
  length_type_args : o.type_args.length = h.num_type_parameters o.cls
  denotes : (type.represented h).Denotes h o

variable {usable : List (TypeArg (RuntimeType C))} {offset : Nat}

/-- The known type arguments of a concrete type are those of its instances. -/
lemma ConcreteType.represents (ho : type.HasInstance h o) (huse : type.usable_type_args h = some usable) :
    List.Forall₂ (TypeArg.Represents h) usable (h.flattened_type_arguments_for o.cls o.type_args) := by
  obtain ⟨hcls, hargs, -⟩ := ho.denotes
  change o.cls = type.cls at hcls
  rw [usable_type_args] at huse
  cases htype_args : type.type_args with
  | some args =>
    rw [htype_args] at huse
    obtain rfl : args = usable := some.inj huse
    refine represents_of_allows (ho.wellFormed args htype_args) (hargs _ ?_)
    rw [represented, htype_args, map_some]
  | none =>
    rw [htype_args] at huse
    split_ifs at huse with h0
    rw [← some.inj huse]
    have hnil : o.type_args = [] := eq_nil_of_length_eq_zero (by rw [ho.length_type_args, hcls, h0])
    rw [hnil, hcls]
    exact h.represents_non_generic type.cls h0

/-- From the offset on, the type arguments of an instance are those of the supertype. -/
lemma ConcreteType.represents_at (ho : type.HasInstance h o) (huse : type.usable_type_args h = some usable)
    (hoff : generic_interface_offset_for h type.cls d = .ok offset) :
    List.Forall₂ (TypeArg.Represents h) ((usable.drop offset).take (h.num_type_parameters d))
      (type_arguments_as h o.cls o.type_args d) := by
  rw [← show o.cls = type.cls from ho.denotes.1] at hoff
  rw [type_arguments_as_eq hoff ho.length_type_args]
  exact List.forall₂_take _ (List.forall₂_drop offset (represents ho huse))

/-- The type argument for `Future` of an instance, as far as it is known. -/
lemma future_argument (ho : type.HasInstance h o) (hargs : type.type_args = some args)
    (hoff : generic_interface_offset_for h type.cls h.future_class = .ok offset) {ta : TypeArg (RuntimeType C)}
    (hta : args[offset]? = some ta) :
    ∃ a, type_arguments_as h o.cls o.type_args h.future_class = [a] ∧ ta.Represents h a := by
  have huse : type.usable_type_args h = some args := by rw [ConcreteType.usable_type_args, hargs]
  have hrepresents := represents_at ho huse hoff
  obtain ⟨hlt, rfl⟩ := List.getElem?_eq_some_iff.mp hta
  rw [h.future_generic, drop_eq_getElem_cons hlt, take_succ_cons] at hrepresents
  obtain ⟨a, rest, ha, hrest, heq⟩ := forall₂_cons_left_iff.mp hrepresents
  rw [forall₂_nil_left_iff.mp hrest] at heq
  exact ⟨a, heq, ha⟩

/-- A future is compared by its type argument. -/
lemma ConcreteType.guarded_future (ho : type.HasInstance h o) {b : RuntimeType C} (hb : b.WellFormed h)
    (hfuture : is_subtype_of h.toTypeHierarchy type.cls h.future_class = true)
    (hcode : type.is_subtype_of_runtime_type h (.future_or b n) = .ok true) :
    ((future_or b n).represented_type h).accepts h o.cls o.type_args = true ↔
      type.Guarded h o (.future_or b n) := by
  have hfuture' : is_subtype_of h.toTypeHierarchy o.cls h.future_class = true := by
    rw [show o.cls = type.cls from ho.denotes.1, hfuture]
  rw [is_subtype_of_runtime_type, if_pos hfuture] at hcode
  rw [represented_type, accepts_future_or, Guarded, if_pos hfuture, hfuture', Bool.true_and, Bool.or_eq_true]
  cases hargs : type.type_args with
  | none =>
    rw [hargs] at hcode
    refine iff_of_true (.inr (all_eq_true.mpr fun a _ => dynamic_is_subtype hb hcode a)) (.inl ?_)
    simp
  | some args =>
    rw [hargs] at hcode
    obtain ⟨offset, hoff, hcode⟩ := bind_eq_ok_iff.mp hcode
    split at hcode
    · cases hcode
    · next hta =>
      refine iff_of_true (.inr (all_eq_true.mpr fun a _ => dynamic_is_subtype hb hcode a)) (.inl ?_)
      intro args' offset' a hargs' hoff' ha
      cases hargs'
      obtain rfl := ok.inj (hoff.symm.trans hoff')
      rw [hta] at ha
      cases ha
    · next this_arg hta =>
      obtain ⟨a, has, hwf, rfl⟩ := future_argument ho hargs hoff hta
      rw [has, all_cons, all_nil, Bool.and_true, guardDecides b hb this_arg hwf hcode, or_comm]
      refine or_congr ⟨fun hguard args' offset' a hargs' hoff' ha => ?_, fun hguard => ?_⟩ Iff.rfl
      · cases hargs'
        obtain rfl := ok.inj (hoff.symm.trans hoff')
        rw [hta] at ha
        obtain rfl := TypeArg.runtime.inj (some.inj ha)
        exact hguard
      · exact hguard args offset this_arg rfl hoff hta

/-- An instance of a concrete type passes exactly if it is guarded. -/
lemma ConcreteType.guarded_iff (ho : type.HasInstance h o) :
    ∀ r : RuntimeType C, r.WellFormed h → type.is_subtype_of_runtime_type h r = .ok true →
      ((r.represented_type h).accepts h o.cls o.type_args = true ↔ type.Guarded h o r)
  | .dynamic, _, _ => iff_of_true (by simp [represented_type, accepts]) trivial
  | .void, _, _ => iff_of_true (by simp [represented_type, accepts]) trivial
  | .never _, _, hcode => by cases hcode
  | .null, _, hcode => by cases hcode
  | .interface d n type_args, hr, hcode => by
    have hcls : o.cls = type.cls := ho.denotes.1
    obtain ⟨-, hcode⟩ := ok_ite_false hcode
    obtain ⟨hsub, hcode⟩ := ok_ite_false hcode
    rw [not_not] at hsub
    have hsub' : is_subtype_of h.toTypeHierarchy o.cls d = true := by rw [hcls, hsub]
    rw [accepts_interface, hsub', Bool.true_and, Guarded]
    by_cases h0 : h.num_type_parameters d = 0
    · simp [h0, immediate_type_args, all_accepted, all_guarded]
    rw [if_neg h0] at hcode
    split at hcode
    · cases hcode
    · next usable huse =>
      obtain ⟨offset, hoff, hcode⟩ := bind_eq_ok_iff.mp hcode
      rw [RuntimeType.WellFormed] at hr
      rw [immediate_type_args, all_guardDecides type_args hr.2.2.2 _ _ _ (represents_at ho huse hoff)
        (all_subtypes_of_concrete hcode)]
      refine ⟨fun hguard usable' offset' huse' hoff' => ?_, fun hguard => hguard usable offset huse hoff⟩
      obtain rfl := some.inj (huse.symm.trans huse')
      obtain rfl := ok.inj (hoff.symm.trans hoff')
      exact hguard
  | .future_or b n, hr, hcode => by
    rw [RuntimeType.WellFormed] at hr
    by_cases hfuture : is_subtype_of h.toTypeHierarchy type.cls h.future_class = true
    · exact guarded_future ho hr hfuture hcode
    have hcls : o.cls = type.cls := ho.denotes.1
    have ih := guarded_iff ho b hr ((if_neg hfuture).symm.trans hcode)
    rw [Guarded, if_neg hfuture, represented_type, accepts_future_or, ← ih, hcls]
    simp [hfuture]
termination_by structural r => r

end

/-- The type arguments with which the class implements an interface are subtypes of the given ones. -/
def ConeGuarded (h : RuntimeHierarchy C O) (cls : C) : RuntimeType C → Prop
  | .interface d _ type_args => all_accepted h (immediate_type_args h d type_args) (type_arguments_as h cls [] d) = true
  | _ => True

lemma type_arguments_as_non_generic {c d : C} {args : List (DartType C)} (hargs : args.length = h.num_type_parameters c)
    (hd : h.num_type_parameters d = 0) : type_arguments_as h c args d = [] := by
  rw [type_arguments_as, supertype_arguments]
  split_ifs with hcd
  · exact eq_nil_of_length_eq_zero (by rw [hargs, hcd, hd])
  · cases hlook : (h.generic_supertypes_of c).lookup d with
    | none => rfl
    | some params =>
      obtain ⟨before, after, heq, -⟩ := lookup_eq_some_iff.mp hlook
      have hlen := h.length_supertype_arguments c d params (by rw [heq]; simp)
      rw [eq_nil_of_length_eq_zero (hlen.trans hd)]
      rfl

/-- For a cone only the class was looked at. -/
lemma coneGuarded_iff {cls : C} {o : Instance C (DartType C) A} {r : RuntimeType C}
    (ho : o.type_args.length = h.num_type_parameters o.cls) (hcls : cls ∈ h.supertypes o.cls)
    (hcode : cone_is_subtype_of_runtime_type h cls r = true) :
    (r.represented_type h).accepts h o.cls o.type_args = true ↔ ConeGuarded h cls r := by
  cases r with
  | dynamic | void => exact iff_of_true (by simp [represented_type, accepts]) trivial
  | interface d n type_args =>
    rw [cone_is_subtype_of_runtime_type, Bool.and_eq_true, decide_eq_true_iff] at hcode
    obtain ⟨h0, hsub⟩ := hcode
    have hd := is_subtype_of_iff.mp hsub
    rw [accepts_interface, is_subtype_of_iff.mpr (supertypes_trans hcls hd), Bool.true_and, ConeGuarded]
    have htrans : type_arguments_as h o.cls o.type_args d =
        type_arguments_as h cls (type_arguments_as h o.cls o.type_args cls) d :=
      h.supertype_arguments_trans o.cls cls d o.type_args ho hcls hd
    rw [htrans, type_arguments_as_non_generic ho h0]
  | _ => cases hcode

/-- The type is compared correctly, as far as a value is concerned. -/
def TFType.Guarded (h : RuntimeHierarchy C O) (kind : SubtypeTestKind) (r : RuntimeType C) :
    TFType C (RuntimeType C) A → Value C (DartType C) A → Prop
  | nullable _, .null =>
    kind = .subtype → ∀ type_arg, r = .future_or type_arg .undetermined →
      (type_arg.represented_type h).admits_null h .subtype = true
  | nullable base_type, .object o => base_type.Guarded h kind r (.object o)
  | set types, .object o => ∀ type ∈ types, (type.represented h).Denotes h o → type.Guarded h o r
  | cone cls, .object _ | wide_cone cls, .object _ => ConeGuarded h cls r
  | concrete type, .object o => type.Guarded h o r
  | _, _ => True

lemma null_passes_subtype_iff (hr : r.WellFormed h) (hnull : r.nullability ≠ .non_nullable) :
    (r.represented_type h).admits_null h .subtype = true ↔
      ∀ type_arg, r = .future_or type_arg .undetermined →
        (type_arg.represented_type h).admits_null h .subtype = true := by
  cases r with
  | dynamic | void | null => exact iff_of_true rfl (by simp)
  | never n =>
    refine iff_of_true ?_ (by simp)
    cases n with
    | undetermined => exact absurd rfl hr
    | non_nullable => exact absurd rfl hnull
    | _ => rfl
  | interface d n type_args =>
    exact iff_of_true (admits_null_of_ne hr.1 hnull _) (by simp)
  | future_or b n =>
    rw [represented_type, admits_null]
    cases n with
    | undetermined => simp
    | non_nullable => exact absurd rfl hnull
    | _ => simp

lemma null_passes_is_test (hnullability : ¬(r.nullability ≠ .nullable ∧ ¬(r.is_object h ∧ r.nullability = .legacy))) :
    (r.represented_type h).admits_null h .is_test = true := by
  rw [not_and_not_right, ← or_iff_not_imp_left] at hnullability
  rcases hnullability with hnull | ⟨hobj, hlegacy⟩
  · cases r with
    | never n | interface d n type_args | future_or b n =>
      obtain rfl : n = .nullable := hnull
      simp [represented_type, admits_null]
    | _ => simp [represented_type, admits_null]
  · cases r with
    | interface d n type_args =>
      obtain rfl : n = .legacy := hlegacy
      obtain rfl : d = h.object_class := of_decide_eq_true hobj
      simp [represented_type, admits_null]
    | _ => cases hobj

/-- `null` passes exactly if it is guarded. -/
lemma null_passes_iff {base_type : TFType C (RuntimeType C) A} (hr : r.WellFormed h)
    (hcode : (TFType.nullable base_type).is_subtype_of_runtime_type h kind r = .ok true) :
    (r.represented_type h).admits_null h kind = true ↔
      (TFType.nullable base_type).Guarded h kind r .null := by
  cases kind with
  | subtype =>
    rw [null_passes_subtype_iff hr (ok_ite_false hcode).1]
    exact ⟨fun hadmits _ => hadmits, fun hguard => hguard rfl⟩
  | is_test =>
    refine iff_of_true (null_passes_is_test (ok_ite_false hcode).1) fun hkind => ?_
    cases hkind

lemma allM_ok {α : Type} {f : α → Checked Bool} {l : List α} (hall : l.allM f = .ok true) (a : α) (ha : a ∈ l) :
    f a = .ok true := by
  induction l with
  | nil => cases ha
  | cons x l ih =>
    obtain ⟨pass, hpass, hall⟩ := bind_eq_ok_iff.mp hall
    cases pass with
    | false => cases hall
    | true =>
      rcases mem_cons.mp ha with rfl | ha
      · exact hpass
      · exact ih hall ha

/-- An instance of any abstract type passes exactly if it is guarded. -/
lemma object_passes_iff (hr : r.WellFormed h)
    {o : Instance C (DartType C) A} (ho : o.type_args.length = h.num_type_parameters o.cls) :
    ∀ t : TFType C (RuntimeType C) A, t.RuntimeWellFormed h → t.is_subtype_of_runtime_type h kind r = .ok true →
      (t.represented h).Contains h o →
      ((r.represented_type h).accepts h o.cls o.type_args = true ↔ t.Guarded h kind r (.object o))
  | .empty, _, _, hin => absurd hin id
  | .nullable base_type, ht, hcode, hin => by
    refine object_passes_iff hr ho base_type ht ?_ hin
    cases kind with
    | subtype => exact (ok_ite_false hcode).2
    | is_test => exact (ok_ite_false hcode).2
  | .any, _, hcode, _ => by
    refine iff_of_true ?_ trivial
    cases r with
    | dynamic => simp [represented_type, accepts]
    | void => simp [represented_type, accepts]
    | interface d n type_args =>
      have hobj : d = h.object_class := of_decide_eq_true (ok.inj hcode)
      rw [hobj, represented_object]
      exact accepts_object n _ _
    | _ => cases hcode
  | .set types, ht, hcode, hin => by
    obtain ⟨_, hmem, hden⟩ := hin
    obtain ⟨type, htype, rfl⟩ := mem_map.mp hmem
    have hiff : ∀ type ∈ types, (type.represented h).Denotes h o →
        ((r.represented_type h).accepts h o.cls o.type_args = true ↔ type.Guarded h o r) :=
      fun type htype hden => guarded_iff ⟨ht type htype, ho, hden⟩ r hr (allM_ok hcode type htype)
    refine ⟨fun hacc type' htype' hden' => (hiff type' htype' hden').mp hacc, fun hguard => ?_⟩
    exact (hiff type htype hden).mpr (hguard type htype hden)
  | .cone cls, _, hcode, hin => coneGuarded_iff ho hin (ok.inj hcode)
  | .wide_cone cls, _, hcode, hin => coneGuarded_iff ho hin (ok.inj hcode)
  | .concrete type, ht, hcode, hin => guarded_iff ⟨ht, ho, hin⟩ r hr hcode
termination_by structural t => t

/-- When the code answers that all values of a type pass a check, they do if and only if the comparisons with
`FutureOr` types and of the type arguments of cones are right. -/
theorem check_elimination_sound_iff (h : RuntimeHierarchy C O) (kind : SubtypeTestKind) (t : TFType C (RuntimeType C) A)
    (r : RuntimeType C) (ht : t.RuntimeWellFormed h) (hr : r.WellFormed h)
    (hcode : t.is_subtype_of_runtime_type h kind r = .ok true) :
    (∀ v, v.Exists h → (t.represented h).Denotes h v →
      v.passes h kind (r.represented_type h) = true) ↔
    ∀ v, v.Exists h → (t.represented h).Denotes h v → t.Guarded h kind r v := by
  refine forall_congr' fun v => imp_congr_right fun hv => imp_congr_right fun hden => ?_
  cases v with
  | null =>
    obtain ⟨base_type, hbase⟩ := hden
    cases t with
    | nullable base_type => exact null_passes_iff hr hcode
    | _ => cases hbase
  | object o => exact object_passes_iff hr hv.2 t ht hcode hden

inductive SampleClass where
  | object
  | function
  | future
  | box
  | item
deriving DecidableEq

/-- The types over the type parameter of a class: the parameter itself and `Item`. -/
inductive SampleType where
  | parameter
  | item
deriving DecidableEq

namespace SampleClass

def supertypes : SampleClass → List SampleClass
  | object => [object]
  | function => [function, object]
  | future => [future, object]
  | box => [box, object]
  | item => [item, box, object]

def type_parameters : SampleClass → List SampleType
  | future | box => [.parameter]
  | object | function | item => []

/-- `class Item implements Box<Item>`. -/
def generic_supertypes_of : SampleClass → List (SampleClass × List SampleType)
  | item => [(box, [.item])]
  | _ => []

def item_type : RuntimeType SampleClass := .interface item .non_nullable []

def instantiate (args : List (DartType SampleClass)) : SampleType → DartType SampleClass
  | .parameter => args.headD .dynamic
  | .item => .interface item .non_nullable []

def flattened (c : SampleClass) (args : List (DartType SampleClass)) : List (DartType SampleClass) :=
  (flatten_type_arguments c.type_parameters c.generic_supertypes_of).1.map (instantiate args)

def non_generic : SampleClass → List (TypeArg (RuntimeType SampleClass))
  | item => [.runtime item_type]
  | _ => []

lemma map_instantiate (c : SampleClass) (args : List (DartType SampleClass))
    (hargs : args.length = c.type_parameters.length) : c.type_parameters.map (instantiate args) = args := by
  match c, args with
  | object, [] | function, [] | item, [] => rfl
  | future, [a] | box, [a] => rfl

/-- `Object`, `Function`, `Future<T>`, and the classes `Box<T>` and `Item` of a program, which has objects of both. -/
def hierarchy : TypeHierarchy SampleClass (DartType SampleClass) where
  id c := c.ctorIdx
  id_injective c d := by cases c <;> cases d <;> simp [SampleClass.ctorIdx]
  supertypes := supertypes
  mem_supertypes := by rintro ⟨⟩ <;> decide
  supertypes_subset := by rintro ⟨⟩ ⟨⟩ <;> decide
  object_class := object
  num_type_parameters c := c.type_parameters.length
  flattened_type_arguments_for := flattened
  num_flattened_type_arguments c := (flatten_type_arguments c.type_parameters c.generic_supertypes_of).1.length
  length_flattened c args _ := by rw [flattened, List.length_map]
  take_flattened c args hargs := by
    rw [flattened, ← List.map_take]
    refine Eq.trans ?_ (map_instantiate c args hargs)
    rw [← List.prefix_iff_eq_take.mp (type_parameters_isPrefix c.type_parameters c.generic_supertypes_of)]
  allocated_classes := [box, item]
  nodup_allocated := by decide
  has_dynamically_extendable_subtypes _ := false
  max_allocated_types_in_set_specialization := 128

lemma item_type_wellFormed : item_type.WellFormed hierarchy := by
  exact ⟨by decide, le_rfl, if_pos rfl ▸ rfl, trivial⟩

def runtime_hierarchy : RuntimeHierarchy SampleClass SampleType where
  toTypeHierarchy := hierarchy
  future_class := future
  function_class := function
  type_parameters := type_parameters
  length_type_parameters _ := rfl
  generic_supertypes_of := generic_supertypes_of
  generic_supertypes_unique c d args args' := by cases c <;> simp +contextual [generic_supertypes_of]
  length_supertype_arguments c d args := by cases c <;> simp +contextual [generic_supertypes_of, hierarchy, type_parameters]
  instantiate := instantiate
  instantiate_type_parameters := map_instantiate
  flattened_eq _ _ _ := rfl
  supertype_arguments_trans b c d args _ hc hd := by
    have hc : c ∈ b.supertypes := hc
    have hd : d ∈ c.supertypes := hd
    cases b <;> cases c <;> first
      | exact absurd hc (by decide)
      | cases d <;> first
        | exact absurd hd (by decide)
        | rfl
  flattened_type_arguments_for_non_generic := non_generic
  represents_non_generic c hc := by
    cases c with
    | item => exact .cons ⟨item_type_wellFormed, rfl⟩ .nil
    | future => cases hc
    | box => cases hc
    | _ => exact .nil
  object_supertype := by rintro ⟨⟩ <;> decide
  object_non_generic := rfl
  future_generic := rfl

/-- The comparison with a `FutureOr` ignores that the other type is nullable, the nullability of a `FutureOr` over a
type parameter is left open, and the type arguments are not compared for a cone. -/
theorem runtime_check_fails :
    (let t : TFType SampleClass (RuntimeType SampleClass) Unit :=
      .concrete ⟨box, some [.runtime (.interface future .nullable [item_type])], none⟩
    let r : RuntimeType SampleClass := .interface box .non_nullable [.future_or item_type .non_nullable]
    let v : Value SampleClass (DartType SampleClass) Unit :=
      .object ⟨box, [.interface future .nullable [.interface item .non_nullable []]], none⟩
    t.is_subtype_of_runtime_type runtime_hierarchy .subtype r = .ok true ∧ v.Exists hierarchy ∧
      (t.represented runtime_hierarchy).Denotes hierarchy v ∧
      v.passes runtime_hierarchy .subtype (r.represented_type hierarchy) = false) ∧
    (let t : TFType SampleClass (RuntimeType SampleClass) Unit := .nullable .empty
    let r : RuntimeType SampleClass := .future_or item_type .undetermined
    t.is_subtype_of_runtime_type runtime_hierarchy .subtype r = .ok true ∧
      (t.represented runtime_hierarchy).Denotes hierarchy .null ∧
      (Value.null : Value SampleClass (DartType SampleClass) Unit).passes runtime_hierarchy .subtype
        (r.represented_type hierarchy) = false) ∧
    (let t : TFType SampleClass (RuntimeType SampleClass) Unit := .cone item
    let r : RuntimeType SampleClass := .interface box .non_nullable [.interface future .non_nullable [item_type]]
    let v : Value SampleClass (DartType SampleClass) Unit := .object ⟨item, [], none⟩
    t.is_subtype_of_runtime_type runtime_hierarchy .is_test r = .ok true ∧ v.Exists hierarchy ∧
      (t.represented runtime_hierarchy).Denotes hierarchy v ∧
      v.passes runtime_hierarchy .is_test (r.represented_type hierarchy) = false) := by
  refine ⟨⟨rfl, ⟨by decide, rfl⟩, ⟨rfl, fun args hargs => ?_, by simp [represented]⟩, rfl⟩,
    ⟨rfl, ⟨_, rfl⟩, rfl⟩, rfl, ⟨by decide, rfl⟩, ?_, rfl⟩
  · rw [← some.inj hargs]
    exact .cons rfl .nil
  · exact (.head _)

/-- `Box<Item>` against `Box<FutureOr<Item>>`. -/
theorem check_elimination_sound_iff_item :
    let t : TFType SampleClass (RuntimeType SampleClass) Unit := .concrete ⟨box, some [.runtime item_type], none⟩
    let r : RuntimeType SampleClass := .interface box .non_nullable [.future_or item_type .non_nullable]
    (∀ v, v.Exists hierarchy → (t.represented runtime_hierarchy).Denotes hierarchy v →
      v.passes runtime_hierarchy .subtype (r.represented_type hierarchy) = true) ↔
    ∀ v, v.Exists hierarchy → (t.represented runtime_hierarchy).Denotes hierarchy v →
      t.Guarded runtime_hierarchy .subtype r v := by
  refine check_elimination_sound_iff runtime_hierarchy .subtype _ _ ?_ ?_ rfl
  · intro args hargs s hs
    rw [← some.inj hargs, mem_singleton] at hs
    rw [TypeArg.runtime.inj hs]
    exact item_type_wellFormed
  · exact ⟨by decide, le_rfl, rfl, item_type_wellFormed, trivial⟩

end SampleClass
end dart.type_flow
