import DartVM.TypeFlow.RuntimeTypes

namespace dart.type_flow
open List
variable {C O : Type} [DecidableEq C] [DecidableEq O]

/-- A class of the hierarchy. `genericSuperType` maps each generic supertype to the type arguments with which the class
implements it, as type expressions over the type parameters. -/
structure GenericClass (C O : Type) where
  class_node : C
  type_parameters : List O
  generic_super_type : List (C × List O)
  distinct : (generic_super_type.map Prod.fst).Nodup

namespace GenericClass
variable (klass : GenericClass C O)

/-- `flattenedTypeArgumentsFor`. -/
def flattened_type_arguments : List O := (flatten_type_arguments klass.type_parameters klass.generic_super_type).1

/-- `genericInterfaceOffsetFor`. -/
def interface_offset_for (iface : C) : Option Nat :=
  interface_offset klass.class_node (flatten_type_arguments klass.type_parameters klass.generic_super_type).2 iface

/-- `getClassAsInstanceOf` for a generic class. -/
def as_instance_of (superclass : C) : Option (List O) :=
  if klass.class_node = superclass then some klass.type_parameters else klass.generic_super_type.lookup superclass

end GenericClass

omit [DecidableEq C] in
/-- An offset is recorded for each supertype. -/
lemma mem_foldl_add_supertype {rest : List (C × List O)} (flattened : List O × List (C × Nat)) {d : C}
    (hd : d ∈ rest.map Prod.fst ++ flattened.2.map Prod.fst) : d ∈ (rest.foldl add_supertype flattened).2.map Prod.fst := by
  induction rest generalizing flattened with
  | nil => exact hd
  | cons intf rest ih =>
    refine ih (add_supertype flattened intf) ?_
    simp only [add_supertype, map_cons, mem_append, mem_cons] at hd ⊢
    tauto

/-- The type arguments of a supertype are found at its offset. -/
lemma GenericClass.isPrefix_at_offset (klass : GenericClass C O) {iface : C} {args : List O}
    (hargs : klass.as_instance_of iface = some args) :
    ∃ offset, klass.interface_offset_for iface = some offset ∧ args <+: klass.flattened_type_arguments.drop offset := by
  rw [as_instance_of] at hargs
  split_ifs at hargs with hself
  · cases hargs
    exact ⟨0, if_pos hself, type_parameters_isPrefix _ _⟩
  · obtain ⟨before, after, heq, -⟩ := lookup_eq_some_iff.mp hargs
    have hmem : (iface, args) ∈ klass.generic_super_type := by simp [heq]
    cases hoff : klass.interface_offset_for iface with
    | none =>
      rw [interface_offset_for, interface_offset, if_neg hself, lookup_eq_none_iff] at hoff
      obtain ⟨entry, hent, rfl⟩ := mem_map.mp
        (mem_foldl_add_supertype (klass.type_parameters, []) (mem_append_left _ (mem_map_of_mem hmem)))
      exact absurd (hoff entry hent) (by simp)
    | some offset =>
      obtain ⟨args', hmem', hstarts⟩ := interface_offset_spec hself hoff
      cases inj_on_of_nodup_map klass.distinct hmem hmem' rfl
      exact ⟨offset, rfl, hstarts⟩

/-- The loop looks at as many type arguments as the supertype has. -/
lemma concrete_type_args_pass_take {h : RuntimeHierarchy C O} {usable : List (TypeArg (RuntimeType C))} {count : Nat}
    {type_args : List (RuntimeType C)} :
    concrete_type_args_pass h (usable.take count) count type_args = concrete_type_args_pass h usable count type_args := by
  induction count generalizing usable type_args with
  | zero => simp [concrete_type_args_pass]
  | succ count ih =>
    cases usable with
    | nil => rfl
    | cons ta usable =>
      cases type_args with
      | nil => rfl
      | cons type_arg type_args =>
        cases ta with
        | unknown => rfl
        | runtime ta => simp only [take_succ_cons, concrete_type_args_pass, ih]

/-- The type arguments with which a class implements a supertype stand one after the other from its offset on, and
are those that `isSubtypeOfRuntimeType` compares. -/
theorem flattened_type_arguments_spec (klass : GenericClass C O) (iface : C) (args : List O)
    (hargs : klass.as_instance_of iface = some args) : ∃ offset, klass.interface_offset_for iface = some offset ∧
      (∀ i < args.length, klass.flattened_type_arguments[offset + i]? = args[i]?) ∧
      ∀ (h : RuntimeHierarchy C O) (translate : O → TypeArg (RuntimeType C)) (type_args : List (RuntimeType C)),
        concrete_type_args_pass h ((klass.flattened_type_arguments.map translate).drop offset) args.length type_args =
          concrete_type_args_pass h (args.map translate) args.length type_args := by
  obtain ⟨offset, hoff, hstarts⟩ := klass.isPrefix_at_offset hargs
  refine ⟨offset, hoff, fun i hi => ?_, fun h translate type_args => ?_⟩
  · obtain ⟨more, hmore⟩ := hstarts
    rw [← getElem?_drop, ← hmore, getElem?_append_left hi]
  · rw [← concrete_type_args_pass_take, ← map_drop, ← map_take, ← prefix_iff_eq_take.mp hstarts]

/-- `class B<T> implements A<T, S>, C<S, T>`. -/
def overlapping_class : GenericClass (Fin 3) Nat := ⟨0, [0], [(1, [0, 1]), (2, [1, 0])], by decide⟩

theorem overlapping_class_arguments : overlapping_class.as_instance_of 2 = some [1, 0] ∧
    ∃ offset, overlapping_class.interface_offset_for 2 = some offset ∧
      ∀ i < 2, overlapping_class.flattened_type_arguments[offset + i]? = [1, 0][i]? := by
  obtain ⟨offset, hoff, hargs, -⟩ := flattened_type_arguments_spec overlapping_class 2 [1, 0] rfl
  exact ⟨rfl, offset, hoff, hargs⟩

end dart.type_flow
