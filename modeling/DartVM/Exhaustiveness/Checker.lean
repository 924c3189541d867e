import DartVM.Exhaustiveness.Space
import DartVM.Lib.Worklist

namespace dart.exhaustiveness
variable {T K : Type}

/-- The value at a path has a type, of which it is known to have the static type. -/
structure Predicate (T K : Type) where
  path : List K
  static_type : T
  value_type : T

/-- The predicates of a value that no row matches. -/
structure Witness (T K : Type) where
  predicates : List (Predicate T K)

/-- What a search for unmatched values returns, `none` if there are none. -/
abbrev Witnesses (T K : Type) := Option (List (Witness T K))

variable [DecidableEq K] (types : StaticTypes T K)

/-- The keys of the maps in a set. -/
def key_set (maps : List (List (K × Space T K))) : List K :=
  (maps.flatMap fun map => map.map Prod.fst).eraseDups

/-- The column of a property, for which a single space that does not test it has a space of all its values.
The identity of new spaces is not used. -/
def expand_property (single_space : SingleSpace T K) (type : T) (path : List K) (key : K) : Space T K :=
  match single_space.properties.lookup key with
  | some property => property
  | none =>
    let property_type := (types.get_property_type type key).or (types.extension_type key)
    .of_type 0 (path ++ [key]) (property_type.getD types.nullable_object)

/-- The column of an additional property. -/
def expand_additional_property (single_space : SingleSpace T K) (type : T) (path : List K) (key : K) : Space T K :=
  match single_space.additional_properties.lookup key with
  | some property => property
  | none => .of_type 0 (path ++ [key]) ((types.get_additional_property_type type key).getD types.nullable_object)

/-- `_expandProperties`. -/
def expand_properties (property_keys additional_property_keys : List K) (single_space : SingleSpace T K) (type : T)
    (path : List K) : List (Space T K) :=
  property_keys.map (expand_property types single_space type path) ++
    additional_property_keys.map (expand_additional_property types single_space type path)

/-- The single spaces in the first column that must match values of a type, with the rest of their rows. -/
def remaining_rows (type : T) (case_rows : List (Space T K × List (Space T K))) :
    List (SingleSpace T K × List (Space T K)) :=
  case_rows.flatMap fun row =>
    (row.1.single_spaces.filter fun single => types.is_subtype_of type single.type).map fun single => (single, row.2)

/-- The keys of the columns that replace the first one. -/
def sorted_property_keys (first : SingleSpace T K) (remaining : List (SingleSpace T K × List (Space T K))) : List K :=
  (key_set (first.properties :: remaining.map fun row => row.1.properties)).mergeSort types.key_le

def sorted_additional_property_keys (first : SingleSpace T K)
    (remaining : List (SingleSpace T K × List (Space T K))) : List K :=
  (key_set (first.additional_properties :: remaining.map fun row => row.1.additional_properties)).mergeSort types.key_le

/-- `_filterByType`, with the call of `_unmatched` as an argument. -/
def filter_by_type
    (unmatched : List (List (Space T K)) → List (Space T K) → List (Predicate T K) → Checked (Witnesses T K))
    (context_type type : T) (case_rows : List (Space T K × List (Space T K))) (first : SingleSpace T K)
    (value_spaces : List (Space T K)) (witness_predicates : List (Predicate T K)) (path : List K) :
    Checked (Witnesses T K) :=
  let remaining := remaining_rows types type case_rows
  let keys := sorted_property_keys types first remaining
  let additional_keys := sorted_additional_property_keys types first remaining
  unmatched (remaining.map fun row => expand_properties types keys additional_keys row.1 row.1.type path ++ row.2)
    (expand_properties types keys additional_keys first type path ++ value_spaces)
    (witness_predicates ++ [⟨path, context_type, type⟩])

/-- The loop of `_unmatched` over the stack of types, with the call of `_filterByType` as an argument. -/
def exhaust_types (filter : T → Checked (Witnesses T K)) (keys_of_interest : List K) (return_multiple_witnesses : Bool) :
    Nat → List T → Witnesses T K → Checked (Witnesses T K)
  | 0, _, _ => .error .out_of_fuel
  | _ + 1, [], witnesses => .ok witnesses
  | fuel + 1, type :: stack, witnesses =>
    if types.is_subtype_of type types.never_type then
      exhaust_types filter keys_of_interest return_multiple_witnesses fuel stack witnesses
    else do
      match ← filter type with
      | none => exhaust_types filter keys_of_interest return_multiple_witnesses fuel stack witnesses
      | some result =>
        if types.is_sealed type then
          exhaust_types filter keys_of_interest return_multiple_witnesses fuel
            (stack ++ types.get_subtypes keys_of_interest type) witnesses
        else
          let witnesses := some (witnesses.getD [] ++ result)
          if return_multiple_witnesses then
            exhaust_types filter keys_of_interest return_multiple_witnesses fuel stack witnesses
          else .ok witnesses

/-- The loop of `_unmatched` over the single spaces of the first column. -/
def first_unmatched (exhaust : SingleSpace T K → Checked (Witnesses T K)) : List (SingleSpace T K) → Checked (Witnesses T K)
  | [] => .ok none
  | single :: single_spaces => do
    match ← exhaust single with
    | some witnesses => .ok (some witnesses)
    | none => first_unmatched exhaust single_spaces

/-- A row with its first column. -/
def split_row : List (Space T K) → Checked (Space T K × List (Space T K))
  | [] => .error .out_of_bounds
  | first :: rest => .ok (first, rest)

/-- `_unmatched`. It calls itself only for one witness. -/
def unmatched : Nat → List (List (Space T K)) → List (Space T K) → List (Predicate T K) → Bool → Checked (Witnesses T K)
  | 0, _, _, _, _ => .error .out_of_fuel
  | fuel + 1, case_rows, value_patterns, witness_predicates, return_multiple_witnesses => do
    check (case_rows.all fun row => row.length = value_patterns.length)
    match value_patterns with
    | [] => if case_rows.isEmpty then .ok (some [⟨witness_predicates⟩]) else .ok none
    | first :: value_spaces =>
      let rows ← case_rows.mapM split_row
      let keys_of_interest :=
        key_set (rows.flatMap fun row => row.1.single_spaces.map SingleSpace.additional_properties)
      first_unmatched (fun single =>
        exhaust_types types
          (fun type => filter_by_type types (fun rows values predicates => unmatched fuel rows values predicates false)
            single.type type rows single value_spaces witness_predicates first.path)
          keys_of_interest return_multiple_witnesses fuel [single.type] none) first.single_spaces

variable (fuel : Nat)

section
variable (case_rows : List (List (Space T K)))

lemma unmatched_nil (predicates : List (Predicate T K))
    (multiple : Bool) : unmatched types (fuel + 1) case_rows [] predicates multiple = (do
      check (case_rows.all fun row => row.length = 0)
      if case_rows.isEmpty then .ok (some [⟨predicates⟩]) else .ok none) := rfl

end

/-- `checkExhaustiveness`. -/
def check_exhaustiveness (value_space : Space T K) (cases : List (Space T K)) : Checked (Witnesses T K) :=
  unmatched types fuel (cases.map fun space => [space]) [value_space] [] true

/-- The errors for a switch statement. -/
inductive ExhaustivenessError (T K : Type) where
  | unreachable_case (value_type : T) (cases : List (Space T K)) (index : Nat)
  | non_exhaustive (value_type : T) (cases : List (Space T K)) (witnesses : List (Witness T K))

/-- The errors of the cases that the previous ones cover. -/
def unreachable_cases (value_type : T) (cases : List (Space T K)) (compute_unreachable : Bool) :
    Checked (List (ExhaustivenessError T K)) :=
  let case_rows := cases.map fun space => [space]
  if compute_unreachable then
    (List.range' 1 (case_rows.length - 1)).foldlM (fun errors i => do
      let some row := case_rows[i]? | .error .out_of_bounds
      match ← unmatched types fuel (case_rows.take i) row [] false with
      | none => .ok (errors ++ [.unreachable_case value_type cases i])
      | some _ => .ok errors) []
  else .ok []

/-- `reportErrors`. -/
def report_errors (value_type : T) (cases : List (Space T K)) (compute_unreachable : Bool) :
    Checked (List (ExhaustivenessError T K)) := do
  let errors ← unreachable_cases types fuel value_type cases compute_unreachable
  match ← unmatched types fuel (cases.map fun space => [space]) [.of_type 0 [] value_type] [] true with
  | some witnesses => .ok (errors ++ [.non_exhaustive value_type cases witnesses])
  | none => .ok errors

end dart.exhaustiveness
