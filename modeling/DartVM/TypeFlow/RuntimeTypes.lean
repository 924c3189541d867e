import DartVM.Kernel.Nullability
import DartVM.TypeFlow.Values

namespace dart.type_flow
open List
variable {C T : Type} [DecidableEq C] [DecidableEq T] {generic_supertypes : List (C × List T)}
  {flattened : List T × List (C × Nat)} {offset : Nat}

/-- The smallest index `i` such that `list.skip(i)` and `sublist` agree where both are defined. -/
def find_overlap (list sublist : List T) : Nat :=
  match list with
  | [] => 0
  | x :: rest => if (List.zip (x :: rest) sublist).all fun (a, b) => a = b then 0 else find_overlap rest sublist + 1

/-- The type arguments of one more supertype, and the offset at which they are found. -/
def add_supertype (flattened : List T × List (C × Nat)) (intf : C × List T) : List T × List (C × Nat) :=
  let offset := find_overlap flattened.1 intf.2
  (flattened.1 ++ intf.2.drop (flattened.1.length - offset), (intf.1, offset) :: flattened.2)

/-- `flattenedTypeArgumentsFor`, with the entries for `supertypeOffsetsCache`. -/
def flatten_type_arguments (type_parameters : List T) (generic_supertypes : List (C × List T)) : List T × List (C × Nat) :=
  generic_supertypes.foldl add_supertype (type_parameters, [])

/-- `genericInterfaceOffsetFor`; it throws for a class that is not a generic supertype. -/
def interface_offset (klass : C) (offsets : List (C × Nat)) (iface : C) : Option Nat :=
  if klass = iface then some 0 else offsets.lookup iface

lemma isPrefix_of_zip_eq {list sublist : List T} (hzip : (zip list sublist).all (fun (a, b) => a = b) = true) :
    sublist <+: list ++ sublist.drop list.length := by
  induction list generalizing sublist with
  | nil => simp
  | cons x rest ih =>
    cases sublist with
    | nil => exact nil_prefix
    | cons y sublist =>
      simp only [zip_cons_cons, all_cons, Bool.and_eq_true, decide_eq_true_iff] at hzip
      obtain ⟨rfl, hzip⟩ := hzip
      rw [length_cons, drop_succ_cons, cons_append, prefix_cons_inj]
      exact ih hzip

/-- The sublist starts at the place that `findOverlap` returns. -/
lemma isPrefix_find_overlap (list sublist : List T) :
    sublist <+: (list ++ sublist.drop (list.length - find_overlap list sublist)).drop (find_overlap list sublist) := by
  induction list with
  | nil => simp [find_overlap]
  | cons x rest ih =>
    rw [find_overlap]
    split_ifs with hzip
    · exact isPrefix_of_zip_eq hzip
    · rw [length_cons, Nat.add_sub_add_right, cons_append, drop_succ_cons]
      exact ih

omit [DecidableEq T] in
lemma isPrefix_drop_append {args list : List T} (hargs : args <+: list.drop offset) (more : List T) :
    args <+: (list ++ more).drop offset := by
  rw [drop_append]
  exact hargs.trans (prefix_append _ _)

/-- Each recorded offset is that of the type arguments of the supertype. -/
def OffsetsCorrect (generic_supertypes : List (C × List T)) (flattened : List T × List (C × Nat)) : Prop :=
  ∀ d offset, (d, offset) ∈ flattened.2 → ∃ args, (d, args) ∈ generic_supertypes ∧ args <+: flattened.1.drop offset

omit [DecidableEq C] in
/-- Adding a supertype moves no offset. -/
lemma OffsetsCorrect.add_supertype (hflat : OffsetsCorrect generic_supertypes flattened) {intf : C × List T}
    (hintf : intf ∈ generic_supertypes) : OffsetsCorrect generic_supertypes (add_supertype flattened intf) := by
  intro d offset hmem
  rcases List.mem_cons.mp hmem with heq | hmem
  · cases heq
    exact ⟨intf.2, hintf, isPrefix_find_overlap flattened.1 intf.2⟩
  · obtain ⟨args, hargs, hstarts⟩ := hflat d offset hmem
    exact ⟨args, hargs, isPrefix_drop_append hstarts _⟩

omit [DecidableEq C] in
lemma offsetsCorrect_foldl {generic_supertypes rest : List (C × List T)}
    (hflat : OffsetsCorrect generic_supertypes flattened) (hrest : rest ⊆ generic_supertypes) :
    OffsetsCorrect generic_supertypes (rest.foldl add_supertype flattened) := by
  induction rest generalizing flattened with
  | nil => exact hflat
  | cons intf rest ih =>
    obtain ⟨hintf, hrest⟩ := List.cons_subset.mp hrest
    exact ih (hflat.add_supertype hintf) hrest

variable (type_parameters : List T)

section
omit [DecidableEq C]

variable (generic_supertypes : List (C × List T))

/-- All offsets are right in the end. -/
lemma flatten_type_arguments_correct :
    OffsetsCorrect generic_supertypes (flatten_type_arguments type_parameters generic_supertypes) :=
  offsetsCorrect_foldl (fun _ _ hmem => absurd hmem not_mem_nil) (List.Subset.refl _)

lemma isPrefix_foldl_add_supertype (flattened : List T × List (C × Nat)) (rest : List (C × List T)) :
    flattened.1 <+: (rest.foldl add_supertype flattened).1 := by
  induction rest generalizing flattened with
  | nil => exact prefix_rfl
  | cons intf rest ih => exact (prefix_append _ _).trans (ih (add_supertype flattened intf))

/-- The type parameters of the class come first. -/
lemma type_parameters_isPrefix : type_parameters <+: (flatten_type_arguments type_parameters generic_supertypes).1 :=
  isPrefix_foldl_add_supertype (type_parameters, []) generic_supertypes

end

/-- The type arguments of a supertype are found at its offset. -/
lemma interface_offset_spec {type_parameters : List T} {klass iface : C} (hne : klass ≠ iface)
    (hoff : interface_offset klass (flatten_type_arguments type_parameters generic_supertypes).2 iface = some offset) :
    ∃ args, (iface, args) ∈ generic_supertypes ∧
      args <+: (flatten_type_arguments type_parameters generic_supertypes).1.drop offset := by
  rw [interface_offset, if_neg hne, lookup_eq_some_iff] at hoff
  obtain ⟨before, after, heq, -⟩ := hoff
  exact flatten_type_arguments_correct type_parameters generic_supertypes iface offset (by rw [heq]; simp)

open dart.kernel (Nullability)

/-- Closed types without function and record types, which no `RuntimeType` stands for. -/
inductive DartType (C : Type) where
  | dynamic
  | void
  | never (nullability : Nullability)
  | null
  | interface (class_node : C) (nullability : Nullability) (type_arguments : List (DartType C))
  | future_or (type_argument : DartType C) (nullability : Nullability)

/-- The class `RuntimeType`: the fields of `_type`, and the flattened type arguments. There are none for a class
without type parameters. -/
inductive RuntimeType (C : Type) where
  | dynamic
  | void
  | never (nullability : Nullability)
  | null
  | interface (class_node : C) (nullability : Nullability) (type_args : List (RuntimeType C))
  | future_or (type_arg : RuntimeType C) (nullability : Nullability)

section
variable {C : Type} (h : TypeHierarchy C (DartType C))

mutual

/-- `representedType`. -/
def RuntimeType.represented_type : RuntimeType C → DartType C
  | .dynamic => .dynamic
  | .void => .void
  | .never n => .never n
  | .null => .null
  | .interface c n type_args => .interface c n ((represented_types type_args).take (h.num_type_parameters c))
  | .future_or type_arg n => .future_or type_arg.represented_type n
termination_by structural type => type

def represented_types : List (RuntimeType C) → List (DartType C)
  | [] => []
  | type :: types => type.represented_type :: represented_types types
termination_by structural types => types

end

mutual

/-- The type arguments are the flattened ones, and only the nullability of a `FutureOr` can be undetermined. -/
def RuntimeType.WellFormed : RuntimeType C → Prop
  | .never n => n ≠ .undetermined
  | .interface c n type_args =>
    n ≠ .undetermined ∧ h.num_type_parameters c ≤ type_args.length ∧
      (if h.num_type_parameters c = 0 then type_args = []
        else represented_types h type_args =
          h.flattened_type_arguments_for c ((represented_types h type_args).take (h.num_type_parameters c))) ∧
      all_wellFormed type_args
  | .future_or type_arg _ => type_arg.WellFormed
  | _ => True
termination_by structural type => type

def all_wellFormed : List (RuntimeType C) → Prop
  | [] => True
  | type :: types => type.WellFormed ∧ all_wellFormed types
termination_by structural types => types

end

/-- The type that a type argument stands for, if it is known. -/
def TypeArg.Represents : TypeArg (RuntimeType C) → DartType C → Prop
  | unknown, _ => True
  | runtime type, t => type.WellFormed h ∧ type.represented_type h = t

end

/-- The type arguments of a supertype of an instantiated class. -/
def supertype_arguments {C O T : Type} [DecidableEq C] (generic_supertypes_of : C → List (C × List O))
    (instantiate : List T → O → T) (c : C) (args : List T) (d : C) : List T :=
  if c = d then args else (((generic_supertypes_of c).lookup d).getD []).map (instantiate args)

/-- A hierarchy with the type arguments of the generic supertypes. `O` is the type of the type expressions over
the type parameters of a class. -/
structure RuntimeHierarchy (C O : Type) [DecidableEq C] [DecidableEq O] extends TypeHierarchy C (DartType C) where
  future_class : C
  function_class : C
  type_parameters : C → List O
  length_type_parameters : ∀ c, (type_parameters c).length = num_type_parameters c
  /-- The generic supertypes of a class, without itself. -/
  generic_supertypes_of : C → List (C × List O)
  generic_supertypes_unique : ∀ c d args args', (d, args) ∈ generic_supertypes_of c →
    (d, args') ∈ generic_supertypes_of c → args = args'
  length_supertype_arguments : ∀ c d args, (d, args) ∈ generic_supertypes_of c → args.length = num_type_parameters d
  instantiate : List (DartType C) → O → DartType C
  instantiate_type_parameters : ∀ c args, args.length = num_type_parameters c →
    (type_parameters c).map (instantiate args) = args
  flattened_eq : ∀ c args, args.length = num_type_parameters c → flattened_type_arguments_for c args =
    (flatten_type_arguments (type_parameters c) (generic_supertypes_of c)).1.map (instantiate args)
  supertype_arguments_trans : ∀ b c d args, args.length = num_type_parameters b → c ∈ supertypes b → d ∈ supertypes c →
    supertype_arguments generic_supertypes_of instantiate b args d =
      supertype_arguments generic_supertypes_of instantiate c
        (supertype_arguments generic_supertypes_of instantiate b args c) d
  flattened_type_arguments_for_non_generic : C → List (TypeArg (RuntimeType C))
  represents_non_generic : ∀ c, num_type_parameters c = 0 →
    List.Forall₂ (TypeArg.Represents toTypeHierarchy) (flattened_type_arguments_for_non_generic c)
      (flattened_type_arguments_for c [])
  object_supertype : ∀ c, object_class ∈ supertypes c
  object_non_generic : num_type_parameters object_class = 0
  future_generic : num_type_parameters future_class = 1

section
variable {C O A : Type} [DecidableEq C] [DecidableEq O] (h : RuntimeHierarchy C O)

instance : CoeOut (RuntimeHierarchy C O) (TypeHierarchy C (DartType C)) := ⟨RuntimeHierarchy.toTypeHierarchy⟩

def generic_interface_offset_for (klass iface : C) : Checked Nat :=
  match interface_offset klass (flatten_type_arguments (h.type_parameters klass) (h.generic_supertypes_of klass)).2 iface with
  | some offset => .ok offset
  | none => .error .assertion

namespace RuntimeType

/-- `nullability`, which is the declared one. -/
def nullability : RuntimeType C → Nullability
  | dynamic | void | null => .nullable
  | never n => n
  | interface _ n _ => n
  | future_or _ n => n

/-- `_type.nullability`. The argument of a `FutureOr` in `_type` is `dynamic`. -/
def type_nullability : RuntimeType C → Nullability
  | future_or _ n => kernel.unite_nullabilities (nullability (dynamic : RuntimeType C)) n
  | type => type.nullability

def is_object (type : RuntimeType C) : Bool :=
  match type with
  | interface class_node _ _ => class_node = h.object_class
  | _ => false

def is_dynamic_or_void : RuntimeType C → Bool
  | dynamic | void => true
  | _ => false

end RuntimeType

/-- `UnknownType.isSubtypeOfRuntimeType`. -/
def unknown_is_subtype_of_runtime_type (other : RuntimeType C) : Bool :=
  other.is_dynamic_or_void || (other.is_object h && other.nullability ≠ .non_nullable)

/-- The flattened type arguments of an interface type. -/
def usable_type_args (this_class : C) (type_args : List (RuntimeType C)) : List (TypeArg (RuntimeType C)) :=
  if type_args.isEmpty then h.flattened_type_arguments_for_non_generic this_class else type_args.map TypeArg.runtime

mutual

/-- `RuntimeType.isSubtypeOfRuntimeType`. -/
def RuntimeType.is_subtype_of_runtime_type (this runtime_type : RuntimeType C) : Checked Bool :=
  if this.type_nullability = .nullable ∧ runtime_type.type_nullability = .non_nullable then .ok false
  else
    match runtime_type, this with
    | .dynamic, _ | .void, _ => .ok true
    | _, .never _ => .ok true
    | rhs, .null => .ok (rhs.type_nullability = .nullable)
    | .never _, _ | .null, _ => .ok false
    | rhs, .dynamic | rhs, .void => .ok (rhs.is_object h)
    | .future_or type_arg _, .interface this_class n this_args =>
      if this_class = h.future_class then
        match this_args with
        | [] => .error .out_of_bounds
        | this_arg :: _ => this_arg.is_subtype_of_runtime_type type_arg
      else (RuntimeType.interface this_class n this_args).is_subtype_of_runtime_type type_arg
    | .future_or type_arg _, .future_or this_arg _ => this_arg.is_subtype_of_runtime_type type_arg
    | .interface other_class _ _, .future_or _ _ => .ok (other_class = h.object_class)
    | .interface other_class _ type_args, .interface this_class _ this_args =>
      if ¬is_subtype_of h.toTypeHierarchy this_class other_class then .ok false
      else if h.num_type_parameters other_class = 0 then .ok true
      else do
        let interface_offset ← generic_interface_offset_for h this_class other_class
        all_subtypes ((usable_type_args h this_class this_args).drop interface_offset)
          (h.num_type_parameters other_class) type_args
termination_by structural runtime_type

/-- The loop over the type arguments. -/
def all_subtypes (usable_type_args : List (TypeArg (RuntimeType C))) (count : Nat) (type_args : List (RuntimeType C)) :
    Checked Bool :=
  match type_args, count, usable_type_args with
  | _, 0, _ => .ok true
  | [], _ + 1, _ => .error .out_of_bounds
  | _ :: _, _ + 1, [] => .error .out_of_bounds
  | type_arg :: type_args, count + 1, ta :: usable_type_args => do
    let subtype ←
      match ta with
      | .unknown => .ok (unknown_is_subtype_of_runtime_type h type_arg)
      | .runtime ta => ta.is_subtype_of_runtime_type type_arg
    if subtype then all_subtypes usable_type_args count type_args else return false
termination_by structural type_args

end

/-- The loop of `ConcreteType.isSubtypeOfRuntimeType` over the type arguments. -/
def concrete_type_args_pass : List (TypeArg (RuntimeType C)) → Nat → List (RuntimeType C) → Checked Bool
  | _, 0, _ => .ok true
  | ta :: usable_type_args, count + 1, type_arg :: type_args =>
    match ta with
    | .unknown => .ok false
    | .runtime ta => do
      if ← ta.is_subtype_of_runtime_type h type_arg then concrete_type_args_pass usable_type_args count type_args
      else return false
  | _, _ + 1, _ => .error .out_of_bounds

/-- The type arguments that are known for a concrete type. -/
def ConcreteType.usable_type_args (this : ConcreteType C (RuntimeType C) A) : Option (List (TypeArg (RuntimeType C))) :=
  match this.type_args with
  | some type_args => some type_args
  | none =>
    if h.num_type_parameters this.cls = 0 then some (h.flattened_type_arguments_for_non_generic this.cls) else none

/-- `ConcreteType.isSubtypeOfRuntimeType`. -/
def ConcreteType.is_subtype_of_runtime_type (this : ConcreteType C (RuntimeType C) A) : RuntimeType C → Checked Bool
  | .dynamic | .void => .ok true
  | .interface rhs_class _ type_args =>
    if rhs_class = h.function_class then .ok false
    else if ¬is_subtype_of h.toTypeHierarchy this.cls rhs_class then .ok false
    else if h.num_type_parameters rhs_class = 0 then .ok true
    else
      match this.usable_type_args h with
      | none => .ok false
      | some usable_type_args => do
        let interface_offset ← generic_interface_offset_for h this.cls rhs_class
        concrete_type_args_pass h (usable_type_args.drop interface_offset) (h.num_type_parameters rhs_class) type_args
  | .future_or type_arg _ =>
    if is_subtype_of h.toTypeHierarchy this.cls h.future_class then
      match this.type_args with
      | none => RuntimeType.dynamic.is_subtype_of_runtime_type h type_arg
      | some this_args => do
        let interface_offset ← generic_interface_offset_for h this.cls h.future_class
        match this_args[interface_offset]? with
        | none => .error .out_of_bounds
        | some .unknown => RuntimeType.dynamic.is_subtype_of_runtime_type h type_arg
        | some (.runtime this_arg) => this_arg.is_subtype_of_runtime_type h type_arg
    else this.is_subtype_of_runtime_type type_arg
  | _ => .ok false

inductive SubtypeTestKind where
  | subtype
  | is_test
deriving DecidableEq

/-- `ConeType.isSubtypeOfRuntimeType`. -/
def cone_is_subtype_of_runtime_type (cls : C) : RuntimeType C → Bool
  | .dynamic | .void => true
  | .interface rhs_class _ _ => h.num_type_parameters cls = 0 && is_subtype_of h.toTypeHierarchy cls rhs_class
  | _ => false

/-- `isSubtypeOfRuntimeType`. -/
def TFType.is_subtype_of_runtime_type (kind : SubtypeTestKind) (other : RuntimeType C) :
    TFType C (RuntimeType C) A → Checked Bool
  | empty => .ok true
  | nullable base_type =>
    match kind with
    | .subtype =>
      if other.nullability = .non_nullable then .ok false else base_type.is_subtype_of_runtime_type kind other
    | .is_test =>
      if other.nullability ≠ .nullable ∧ ¬(other.is_object h ∧ other.nullability = .legacy) then .ok false
      else base_type.is_subtype_of_runtime_type kind other
  | any => .ok (other.is_dynamic_or_void || other.is_object h)
  | set types => types.allM fun type => type.is_subtype_of_runtime_type h other
  | cone cls => .ok (cone_is_subtype_of_runtime_type h cls other)
  | wide_cone cls => .ok (cone_is_subtype_of_runtime_type h cls other)
  | concrete type => type.is_subtype_of_runtime_type h other

end

variable {C O A : Type} [DecidableEq C] [DecidableEq O] (h : RuntimeHierarchy C O)

/-- The type arguments of an instantiated class as an instance of a supertype. -/
def type_arguments_as (c : C) (args : List (DartType C)) (d : C) : List (DartType C) :=
  supertype_arguments h.generic_supertypes_of h.instantiate c args d

/-- Whether `null` passes a check against a type. -/
def DartType.admits_null (kind : SubtypeTestKind) : DartType C → Bool
  | dynamic | void | null => true
  | never n => n = .nullable || (n = .legacy && kind = .subtype)
  | interface c n _ => n = .nullable || (n = .legacy && (kind = .subtype || c = h.object_class))
  | future_or a n => n = .nullable || (n = .legacy && kind = .subtype) || a.admits_null kind

/-- Whether a type is below one that admits `null` as given by the first argument and the instances of
instantiated classes as given by the second one. -/
def DartType.lies_below (admits_null : Bool) (accepts : C → List (DartType C) → Bool) : DartType C → Bool
  | dynamic | void => admits_null && accepts h.object_class []
  | null => admits_null
  | never n => n ≠ .nullable || admits_null
  | interface c n args => (n ≠ .nullable || admits_null) && accepts c args
  | future_or a n => (n ≠ .nullable || admits_null) && accepts h.future_class [a] && a.lies_below admits_null accepts

mutual

/-- Whether the instances of an instantiated class pass a check against a type. -/
def DartType.accepts : DartType C → C → List (DartType C) → Bool
  | .dynamic, _, _ | .void, _, _ => true
  | .never _, _, _ | .null, _, _ => false
  | .interface d _ type_arguments, c, args =>
    is_subtype_of h.toTypeHierarchy c d && all_accepted type_arguments (type_arguments_as h c args d)
  | .future_or a _, c, args =>
    a.accepts c args || (is_subtype_of h.toTypeHierarchy c h.future_class &&
      (type_arguments_as h c args h.future_class).all (DartType.lies_below h (a.admits_null h .subtype) a.accepts))
termination_by structural type => type

/-- The type arguments are covariant. -/
def all_accepted : List (DartType C) → List (DartType C) → Bool
  | [], _ => true
  | _ :: _, [] => false
  | type :: types, arg :: args => arg.lies_below h (type.admits_null h .subtype) type.accepts && all_accepted types args
termination_by structural types => types

end

/-- Subtyping of run-time types. -/
def DartType.is_subtype (s t : DartType C) : Bool := s.lies_below h (t.admits_null h .subtype) (t.accepts h)

/-- Whether a value passes a run-time check. -/
def Value.passes (kind : SubtypeTestKind) (type : DartType C) : Value C (DartType C) A → Bool
  | null => type.admits_null h kind
  | object o => type.accepts h o.cls o.type_args

end dart.type_flow
