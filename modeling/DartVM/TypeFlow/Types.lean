import DartVM.Fault
import DartVM.Lib.SortedMerge
import Mathlib.Data.List.Sort

namespace dart.type_flow

/-- The class hierarchy and the classes that are known to be allocated. `C` is the type of the
`TFClass` objects and `R` that of the run-time types in type arguments. -/
structure TypeHierarchy (C R : Type) where
  id : C → Nat
  id_injective : Function.Injective id
  /-- The supertypes of a class, including itself. -/
  supertypes : C → List C
  mem_supertypes : ∀ c, c ∈ supertypes c
  supertypes_subset : ∀ c d, d ∈ supertypes c → supertypes d ⊆ supertypes c
  object_class : C
  num_type_parameters : C → Nat
  /-- The type arguments of a class, and after them those of its generic supertypes, as given by the
  arguments for its type parameters. -/
  flattened_type_arguments_for : C → List R → List R
  num_flattened_type_arguments : C → Nat
  length_flattened : ∀ c args, args.length = num_type_parameters c →
    (flattened_type_arguments_for c args).length = num_flattened_type_arguments c
  take_flattened : ∀ c args, args.length = num_type_parameters c →
    (flattened_type_arguments_for c args).take (num_type_parameters c) = args
  allocated_classes : List C
  nodup_allocated : allocated_classes.Nodup
  has_dynamically_extendable_subtypes : C → Bool
  max_allocated_types_in_set_specialization : Nat

/-- A type argument: `UnknownType` or a `RuntimeType`. -/
inductive TypeArg (R : Type) where
  | unknown
  | runtime (type : R)
deriving DecidableEq

/-- A set of instances of a specific class. -/
structure ConcreteType (C R A : Type) where
  cls : C
  type_args : Option (List (TypeArg R))
  attributes : Option A
deriving DecidableEq

/-- The class `Type`, apart from the representations in type arguments. -/
inductive TFType (C R A : Type) where
  | empty
  | nullable (base_type : TFType C R A)
  | any
  | set (types : List (ConcreteType C R A))
  | cone (cls : C)
  | wide_cone (cls : C)
  | concrete (type : ConcreteType C R A)
deriving DecidableEq

variable {C R A : Type}

/-- `identical` on the objects of the types, which is finer than the equality of their contents, and `binarySearch` of
package:collection for sets. The union is right whichever position it gives, if any. -/
structure Identity (C R A : Type) where
  identical : TFType C R A → TFType C R A → Bool
  eq_of_identical : ∀ s t, identical s t = true → s = t
  binary_search : List (ConcreteType C R A) → ConcreteType C R A → Option Nat

namespace ConcreteType

/-- The concrete type of a class without any constraints. -/
def of_class (cls : C) : ConcreteType C R A := ⟨cls, none, none⟩

def raw (this : ConcreteType C R A) : ConcreteType C R A := of_class this.cls

variable (h : TypeHierarchy C R)

def num_immediate_type_args (this : ConcreteType C R A) : Nat :=
  match this.type_args with
  | some _ => h.num_type_parameters this.cls
  | none => 0

variable [DecidableEq C] [DecidableEq R] [DecidableEq A]

/-- `operator ==`. -/
def equals (this other : ConcreteType C R A) : Bool :=
  this.cls = other.cls && this.num_immediate_type_args h = other.num_immediate_type_args h &&
    this.attributes = other.attributes &&
    match this.type_args with
    | some args => args.take (this.num_immediate_type_args h) =
        (other.type_args.getD []).take (this.num_immediate_type_args h)
    | none => true

end ConcreteType

namespace TypeArg
variable [DecidableEq R]

/-- The intersection of two type-set representations; `none` stands for the empty type. -/
def intersection : TypeArg R → TypeArg R → Option (TypeArg R)
  | unknown, other => some other
  | runtime r, unknown => some (runtime r)
  | runtime r, runtime s => if r = s then some (runtime r) else none

def is_runtime : TypeArg R → Bool
  | runtime _ => true
  | unknown => false

end TypeArg

section
variable [DecidableEq C] (h : TypeHierarchy C R)

def is_subtype_of (this other : C) : Bool := this = other || (h.supertypes this).contains other

variable (cls : C)

/-- `_allocatedSubtypes`. -/
def allocated_subtypes : List C := h.allocated_classes.filter fun sub => is_subtype_of h sub cls

/-- The order of `compareTo`. -/
def id_le (s t : ConcreteType C R A) : Bool := h.id s.cls ≤ h.id t.cls

/-- `_calculateConeTypeSpecialization`. -/
def specialized_cone_type : TFType C R A :=
  match allocated_subtypes h cls with
  | [] => .empty
  | [sub] => .concrete (.of_class sub)
  | subs => .set ((subs.map ConcreteType.of_class).mergeSort (id_le h))

def has_wide_cone : Bool :=
  (allocated_subtypes h cls).length > h.max_allocated_types_in_set_specialization ||
    h.has_dynamically_extendable_subtypes cls

def specialize_type_cone (allow_wide_cone : Bool) : TFType C R A :=
  if cls = h.object_class then .any
  else if allow_wide_cone && has_wide_cone h cls then .wide_cone cls
  else specialized_cone_type h cls

end

namespace TFType

/-- The index in `TypeOrder`. -/
def order : TFType C R A → Nat
  | empty => 2
  | nullable _ => 3
  | any => 4
  | wide_cone _ => 5
  | set _ => 6
  | cone _ => 7
  | concrete _ => 8

/-- `nullable()`. -/
def to_nullable : TFType C R A → TFType C R A
  | nullable base_type => nullable base_type
  | type => nullable type

end TFType

section
variable [DecidableEq C] [DecidableEq R] [DecidableEq A] (h : TypeHierarchy C R) (same : Identity C R A)

def union_lists : List (ConcreteType C R A) → List (ConcreteType C R A) → List (ConcreteType C R A)
  | [], types2 => types2
  | t1 :: types1, [] => t1 :: types1
  | t1 :: types1, t2 :: types2 =>
    if same.identical (.concrete t1) (.concrete t2) then t1 :: union_lists types1 types2
    else if h.id t1.cls < h.id t2.cls then t1 :: union_lists types1 (t2 :: types2)
    else if h.id t1.cls > h.id t2.cls then t2 :: union_lists (t1 :: types1) types2
    else t1.raw :: union_lists types1 types2
termination_by types1 types2 => types1.length + types2.length

/-- The loop that merges the type arguments of two concrete types. -/
def merge_type_args (this other : List (TypeArg R)) : Option (List (TypeArg R)) :=
  (List.zip this other).mapM fun (s, t) => s.intersection t

/-- The intersection of two concrete types; `none` stands for the empty type. -/
def ConcreteType.intersection (this other : ConcreteType C R A) : Checked (Option (ConcreteType C R A)) :=
  if this.equals h other then .ok (some this)
  else if this.cls ≠ other.cls then .ok none
  else
    match this.attributes, other.attributes with
    | some _, none => .ok (some this)
    | some a, some b => do
      check (a ≠ b)
      return none
    | none, some _ => .ok (some other)
    | none, none =>
      match this.type_args, other.type_args with
      | none, _ => .ok (some other)
      | some _, none => .ok (some this)
      | some this_type_args, some other_type_args => do
        check (this_type_args.length = other_type_args.length)
        match merge_type_args this_type_args other_type_args with
        | none => return none
        | some merged =>
          if merged.any TypeArg.is_runtime then return some ⟨this.cls, some merged, none⟩
          else return some (.of_class this.cls)

def intersect_lists : List (ConcreteType C R A) → List (ConcreteType C R A) → Checked (List (ConcreteType C R A))
  | [], _ => .ok []
  | _ :: _, [] => .ok []
  | t1 :: types1, t2 :: types2 =>
    if same.identical (.concrete t1) (.concrete t2) then do
      return t1 :: (← intersect_lists types1 types2)
    else if h.id t1.cls < h.id t2.cls then intersect_lists types1 (t2 :: types2)
    else if h.id t1.cls > h.id t2.cls then intersect_lists (t1 :: types1) types2
    else do
      let intersect ← t1.intersection h t2
      let types ← intersect_lists types1 types2
      return intersect.toList ++ types
termination_by types1 types2 => types1.length + types2.length

/-- `_isSubList`. -/
def is_sub_list : List (ConcreteType C R A) → List (ConcreteType C R A) → Bool
  | [], _ => true
  | _ :: _, [] => false
  | t1 :: sublist, t2 :: list =>
    if same.identical (.concrete t1) (.concrete t2) then is_sub_list sublist list
    else if h.id t1.cls > h.id t2.cls then is_sub_list (t1 :: sublist) list
    else false

/-- The type of a list of concrete types. -/
def of_list (types : List (ConcreteType C R A)) : TFType C R A :=
  match types with
  | [] => .empty
  | [type] => .concrete type
  | types => .set types

end

variable [DecidableEq C] [DecidableEq R] [DecidableEq A] (h : TypeHierarchy C R) (same : Identity C R A)

/-- Whether the loop from the position of the class finds a type that is equal to the concrete one. -/
def set_contains (types : List (ConcreteType C R A)) (other : ConcreteType C R A) : Bool :=
  match same.binary_search types other with
  | none => false
  | some index => ((types.drop index).takeWhile fun type => h.id type.cls = h.id other.cls).any fun type =>
      type.equals h other

/-- The loop over the types of a set that looks for the class of a concrete type. -/
def intersect_set_with_concrete (other : ConcreteType C R A) : List (ConcreteType C R A) → Checked (TFType C R A)
  | [] => .ok .empty
  | type :: types =>
    if type.equals h other then .ok (.concrete other)
    else if type.cls = other.cls then do
      return of_list (← type.intersection h other).toList
    else intersect_set_with_concrete other types

section

-- `call` is the call of `union` or `intersection` on another type.
variable (call : TFType C R A → TFType C R A → Checked (TFType C R A))

/-- `NullableType.union`. -/
def nullable_union (base_type other : TFType C R A) : Checked (TFType C R A) := do
  let this := TFType.nullable base_type
  if other.order < this.order then call other this
  else
    match other with
    | .nullable other_base_type => return (← call base_type other_base_type).to_nullable
    | _ => return (← call base_type other).to_nullable

/-- `AnyInstanceType.union`. -/
def any_union (other : TFType C R A) : Checked (TFType C R A) :=
  let this := TFType.any
  if other.order < this.order then call other this else .ok this

/-- `SetType.union`. -/
def set_union (types : List (ConcreteType C R A)) (other : TFType C R A) : Checked (TFType C R A) :=
  let this := TFType.set types
  if same.identical this other then .ok this
  else if other.order < this.order then call other this
  else
    match other with
    | .set other_types =>
      if types.length ≥ other_types.length then
        if is_sub_list h same other_types types then .ok this
        else .ok (.set (union_lists h same types other_types))
      else
        if is_sub_list h same types other_types then .ok other
        else .ok (.set (union_lists h same types other_types))
    | .concrete other_type =>
      if set_contains h same types other_type then .ok this
      else .ok (.set (union_lists h same types [other_type]))
    | .cone cls => call (specialize_type_cone h cls true) this
    | _ => .error .assertion

/-- `ConeType.union`. -/
def cone_union (cls : C) (other : TFType C R A) : Checked (TFType C R A) :=
  let this := TFType.cone cls
  if same.identical this other then .ok this
  else if other.order < this.order then call other this
  else
    match other with
    | .cone other_cls =>
      if cls = other_cls then .ok this
      else if is_subtype_of h other_cls cls then .ok this
      else if is_subtype_of h cls other_cls then .ok other
      else call (specialize_type_cone h cls true) other
    | .concrete other_type =>
      if is_subtype_of h other_type.cls cls then .ok this
      else call (specialize_type_cone h cls true) other
    | _ => call (specialize_type_cone h cls true) other

/-- `WideConeType.union`. -/
def wide_cone_union (cls : C) (other : TFType C R A) : Checked (TFType C R A) :=
  let this := TFType.wide_cone cls
  if same.identical this other then .ok this
  else if other.order < this.order then call other this
  else
    match other with
    | .cone other_cls | .wide_cone other_cls =>
      if is_subtype_of h other_cls cls then .ok this
      else if is_subtype_of h cls other_cls then .ok other
      else .ok .any
    | .concrete other_type =>
      if is_subtype_of h other_type.cls cls then .ok this
      else if is_subtype_of h cls other_type.cls then .ok (.cone other_type.cls)
      else .ok .any
    | .set other_types => if other_types.all fun t => is_subtype_of h t.cls cls then .ok this else .ok .any
    | _ => .error .assertion

/-- `ConcreteType.union`. -/
def concrete_union (type : ConcreteType C R A) (other : TFType C R A) : Checked (TFType C R A) :=
  let this := TFType.concrete type
  if other.order < this.order then call other this
  else
    match other with
    | .concrete other_type =>
      if type.equals h other_type then .ok this
      else if type.cls ≠ other_type.cls then
        if h.id type.cls < h.id other_type.cls then .ok (.set [type, other_type])
        else .ok (.set [other_type, type])
      else do
        check (type.type_args.isSome || type.attributes.isSome || other_type.type_args.isSome ||
          other_type.attributes.isSome)
        return .concrete type.raw
    | _ => .error .assertion

/-- `NullableType.intersection`. -/
def nullable_intersection (base_type other : TFType C R A) : Checked (TFType C R A) := do
  let this := TFType.nullable base_type
  if other.order < this.order then call other this
  else
    match other with
    | .nullable other_base_type => return (← call base_type other_base_type).to_nullable
    | _ => call base_type other

/-- `AnyInstanceType.intersection`. -/
def any_intersection (other : TFType C R A) : Checked (TFType C R A) :=
  let this := TFType.any
  if other.order < this.order then call other this else .ok other

/-- `SetType.intersection`. -/
def set_intersection (types : List (ConcreteType C R A)) (other : TFType C R A) : Checked (TFType C R A) :=
  let this := TFType.set types
  if same.identical this other then .ok this
  else if other.order < this.order then call other this
  else
    match other with
    | .set other_types => do return of_list (← intersect_lists h same types other_types)
    | .concrete other_type => intersect_set_with_concrete h other_type types
    | .cone cls => call (specialize_type_cone h cls true) this
    | _ => .error .assertion

/-- `ConeType.intersection`. -/
def cone_intersection (cls : C) (other : TFType C R A) : Checked (TFType C R A) :=
  let this := TFType.cone cls
  if same.identical this other then .ok this
  else if other.order < this.order then call other this
  else
    match other with
    | .cone other_cls =>
      if cls = other_cls then .ok this
      else if is_subtype_of h other_cls cls then .ok other
      else if is_subtype_of h cls other_cls then .ok this
      else call (specialize_type_cone h cls true) other
    | .concrete other_type => if is_subtype_of h other_type.cls cls then .ok other else .ok .empty
    | _ => call (specialize_type_cone h cls true) other

/-- `WideConeType.intersection`. -/
def wide_cone_intersection (cls : C) (other : TFType C R A) : Checked (TFType C R A) :=
  let this := TFType.wide_cone cls
  if same.identical this other then .ok this
  else if other.order < this.order then call other this
  else
    match other with
    | .cone other_cls | .wide_cone other_cls => if is_subtype_of h other_cls cls then .ok other else .ok this
    | .concrete other_type => if is_subtype_of h other_type.cls cls then .ok other else .ok .empty
    | .set other_types =>
      match other_types.filter fun t => is_subtype_of h t.cls cls with
      | [] => .ok .empty
      | [type] => .ok (.concrete type)
      | list => if list.length = other_types.length then .ok other else .ok (.set list)
    | _ => .error .assertion

/-- `ConcreteType.intersection`, on types. -/
def concrete_intersection (type : ConcreteType C R A) (other : TFType C R A) : Checked (TFType C R A) :=
  let this := TFType.concrete type
  if other.order < this.order then call other this
  else
    match other with
    | .concrete other_type => do return of_list (← type.intersection h other_type).toList
    | _ => .error .assertion

end

/-- The calls in which the operands are swapped, a cone is specialized or a nullable type is taken apart are
bounded by the fuel. -/
def union : Nat → TFType C R A → TFType C R A → Checked (TFType C R A)
  | 0, _, _ => .error .out_of_fuel
  | fuel + 1, this, other =>
    match this with
    | .empty => .ok other
    | .nullable base_type => nullable_union (union fuel) base_type other
    | .any => any_union (union fuel) other
    | .set types => set_union h same (union fuel) types other
    | .cone cls => cone_union h same (union fuel) cls other
    | .wide_cone cls => wide_cone_union h same (union fuel) cls other
    | .concrete type => concrete_union h (union fuel) type other

def intersection : Nat → TFType C R A → TFType C R A → Checked (TFType C R A)
  | 0, _, _ => .error .out_of_fuel
  | fuel + 1, this, other =>
    match this with
    | .empty => .ok this
    | .nullable base_type => nullable_intersection (intersection fuel) base_type other
    | .any => any_intersection (intersection fuel) other
    | .set types => set_intersection h same (intersection fuel) types other
    | .cone cls => cone_intersection h same (intersection fuel) cls other
    | .wide_cone cls => wide_cone_intersection h same (intersection fuel) cls other
    | .concrete type => concrete_intersection h (intersection fuel) type other

end dart.type_flow
