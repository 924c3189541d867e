import DartVM.Exhaustiveness.Checker

namespace dart.exhaustiveness
open List Space SingleSpace
variable {T K : Type}

section

mutual

/-- The keys of each map are different. -/
def SingleSpace.Valid : SingleSpace T K → Prop
  | .mk _ properties additional_properties =>
    ((properties.map Prod.fst).Nodup ∧ PropertiesValid properties) ∧
      (additional_properties.map Prod.fst).Nodup ∧ PropertiesValid additional_properties

def Space.Valid : Space T K → Prop
  | .mk _ _ single_spaces => AllValid single_spaces

def AllValid : List (SingleSpace T K) → Prop
  | [] => True
  | single :: single_spaces => single.Valid ∧ AllValid single_spaces

def PropertiesValid : List (K × Space T K) → Prop
  | [] => True
  | (_, space) :: properties => space.Valid ∧ PropertiesValid properties

end

lemma allValid_iff {single_spaces : List (SingleSpace T K)} : AllValid single_spaces ↔ ∀ s ∈ single_spaces, s.Valid := by
  induction single_spaces with
  | nil => simp [AllValid]
  | cons s single_spaces ih => simp [AllValid, ih]

lemma propertiesValid_iff {properties : List (K × Space T K)} :
    PropertiesValid properties ↔ ∀ p ∈ properties, p.2.Valid := by
  induction properties with
  | nil => simp [PropertiesValid]
  | cons p properties ih =>
    rw [forall_mem_cons]
    exact and_congr_right fun _ => ih

lemma Space.valid_iff {space : Space T K} : space.Valid ↔ ∀ s ∈ space.single_spaces, s.Valid := by
  cases space
  exact allValid_iff

lemma SingleSpace.valid_iff {s : SingleSpace T K} : s.Valid ↔
    ((s.properties.map Prod.fst).Nodup ∧ ∀ p ∈ s.properties, p.2.Valid) ∧
      (s.additional_properties.map Prod.fst).Nodup ∧ ∀ p ∈ s.additional_properties, p.2.Valid := by
  cases s
  rw [Valid, propertiesValid_iff, propertiesValid_iff]
  rfl

lemma Space.of_type_valid (object : Nat) (path : List K) (type : T) : (of_type object path type).Valid := by
  simp [of_type, Space.Valid, AllValid, SingleSpace.Valid, PropertiesValid]

lemma lookup_of_mem [DecidableEq K] {l : List (K × Space T K)} (hnodup : (l.map Prod.fst).Nodup) {p : K × Space T K}
    (hp : p ∈ l) : l.lookup p.1 = some p.2 := by
  induction l with
  | nil => exact absurd hp not_mem_nil
  | cons q l ih =>
    rw [map_cons, nodup_cons] at hnodup
    rw [lookup_cons]
    obtain rfl | hp := mem_cons.mp hp
    · simp
    have hne : p.1 ≠ q.1 := fun h => hnodup.1 (h ▸ mem_map_of_mem hp)
    simp only [beq_eq_false_iff_ne.mpr hne]
    exact ih hnodup.2 hp

variable {types : StaticTypes T K} (U : Universe types)

/-- The values of the columns match a row. -/
def RowMatches (vs : List U.Value) (row : List (Space T K)) : Prop := List.Forall₂ (fun v s => s.Matches U v) vs row

/-- Some row matches all values that the value patterns match. -/
def Covers (rows : List (List (Space T K))) (values : List (Space T K)) : Prop :=
  ∀ vs, RowMatches U vs values → ∃ row ∈ rows, RowMatches U vs row

/-- The values of the columns that replace the first one. -/
def expand_values (property_keys additional_property_keys : List K) (v : U.Value) : List U.Value :=
  property_keys.map (U.property v) ++ additional_property_keys.map (U.additional_property v)

variable {U}

lemma rowMatches_map_append {f : K → U.Value} {F : K → Space T K} {keys : List K} {vs : List U.Value}
    {row : List (Space T K)} : RowMatches U (keys.map f ++ vs) (keys.map F ++ row) ↔
      (∀ key ∈ keys, (F key).Matches U (f key)) ∧ RowMatches U vs row := by
  induction keys with
  | nil => simp
  | cons key keys ih =>
    rw [forall_mem_cons, and_assoc, ← ih]
    exact forall₂_cons

variable [DecidableEq K] {s : SingleSpace T K} {type : T} {path : List K} {v : U.Value} {vs : List U.Value}
  {row : List (Space T K)} {property_keys additional_property_keys : List K}

lemma rowMatches_expand_properties : RowMatches U (expand_values U property_keys additional_property_keys v ++ vs)
        (expand_properties types property_keys additional_property_keys s type path ++ row) ↔
      (∀ key ∈ property_keys, (expand_property types s type path key).Matches U (U.property v key)) ∧
      (∀ key ∈ additional_property_keys,
        (expand_additional_property types s type path key).Matches U (U.additional_property v key)) ∧
      RowMatches U vs row := by
  rw [expand_values, expand_properties, append_assoc, append_assoc, rowMatches_map_append, rowMatches_map_append]

lemma expand_property_matches (hty : U.HasType v type) (hmatch : s.Matches U v) (key : K) :
    (expand_property types s type path key).Matches U (U.property v key) := by
  rw [expand_property]
  cases hlook : s.properties.lookup key with
  | some space => exact (matches_iff.mp hmatch).2.1 (key, space) (mem_of_lookup hlook)
  | none =>
    rw [of_type_matches]
    cases hprop : types.get_property_type type key with
    | some t => exact U.hasType_property type key t hprop v hty
    | none =>
      cases hextension : types.extension_type key with
      | some t => exact U.hasType_extension key t hextension v
      | none => exact U.hasType_nullable_object _

lemma expand_additional_property_matches (hty : U.HasType v type) (hmatch : s.Matches U v) (key : K) :
    (expand_additional_property types s type path key).Matches U (U.additional_property v key) := by
  rw [expand_additional_property]
  cases hlook : s.additional_properties.lookup key with
  | some space => exact (matches_iff.mp hmatch).2.2 (key, space) (mem_of_lookup hlook)
  | none =>
    rw [of_type_matches]
    cases hprop : types.get_additional_property_type type key with
    | some t => exact U.hasType_additional_property type key t hprop v hty
    | none => exact U.hasType_nullable_object _

/-- A single space is matched when the columns of all its properties are. -/
lemma SingleSpace.matches_of_expand (hok : s.Valid) (hty : U.HasType v s.type)
    (hkeys : ∀ p ∈ s.properties, p.1 ∈ property_keys)
    (hadd : ∀ p ∈ s.additional_properties, p.1 ∈ additional_property_keys)
    (hprops : ∀ key ∈ property_keys, (expand_property types s type path key).Matches U (U.property v key))
    (hadditionals : ∀ key ∈ additional_property_keys,
      (expand_additional_property types s type path key).Matches U (U.additional_property v key)) : s.Matches U v := by
  obtain ⟨⟨hnodup, -⟩, hnodup', -⟩ := valid_iff.mp hok
  refine matches_iff.mpr ⟨hty, fun p hp => ?_, fun p hp => ?_⟩
  · have h := hprops p.1 (hkeys p hp)
    rwa [expand_property, lookup_of_mem hnodup hp] at h
  · have h := hadditionals p.1 (hadd p hp)
    rwa [expand_additional_property, lookup_of_mem hnodup' hp] at h

end

section
variable [DecidableEq K] {types : StaticTypes T K} {U : Universe types} {s : SingleSpace T K} {v : U.Value}
  {case_rows : List (Space T K × List (Space T K))} {path : List K} {type : T}

lemma mem_key_set {maps : List (List (K × Space T K))} {key : K} :
    key ∈ key_set maps ↔ ∃ map ∈ maps, ∃ p ∈ map, p.1 = key := by
  simp [key_set]

omit [DecidableEq K] in
lemma mem_remaining_rows {row : SingleSpace T K × List (Space T K)} : row ∈ remaining_rows types type case_rows ↔
      ∃ r ∈ case_rows, row.1 ∈ r.1.single_spaces ∧ types.is_subtype_of type row.1.type = true ∧ row.2 = r.2 := by
  simp only [remaining_rows, mem_flatMap, mem_map, mem_filter]
  constructor
  · rintro ⟨r, hr, single, ⟨hsing, hsub⟩, rfl⟩
    exact ⟨r, hr, hsing, hsub, rfl⟩
  · rintro ⟨r, hr, hsing, hsub, hrest⟩
    exact ⟨r, hr, row.1, ⟨hsing, hsub⟩, by rw [← hrest]⟩

lemma expand_properties_valid (hok : s.Valid) {keys additional_keys : List K} :
    ∀ space ∈ expand_properties types keys additional_keys s type path, space.Valid := by
  obtain ⟨⟨-, hprops⟩, -, hadd⟩ := valid_iff.mp hok
  intro space hspace
  obtain hspace | hspace := mem_append.mp hspace
  · obtain ⟨key, -, rfl⟩ := mem_map.mp hspace
    rw [expand_property]
    cases hlook : s.properties.lookup key with
    | some space => exact hprops (key, space) (mem_of_lookup hlook)
    | none => exact of_type_valid _ _ _
  · obtain ⟨key, -, rfl⟩ := mem_map.mp hspace
    rw [expand_additional_property]
    cases hlook : s.additional_properties.lookup key with
    | some space => exact hadd (key, space) (mem_of_lookup hlook)
    | none => exact of_type_valid _ _ _

/-- All spaces of all rows are valid. -/
def RowsValid (rows : List (List (Space T K))) : Prop := ∀ row ∈ rows, ∀ space ∈ row, space.Valid

/-- When the remaining rows cover the expanded columns, the rows cover the values of a type. -/
lemma filter_by_type_sound
    {unmatched : List (List (Space T K)) → List (Space T K) → List (Predicate T K) → Checked (Witnesses T K)}
    (hunmatched : ∀ rows values predicates, RowsValid rows → unmatched rows values predicates = .ok none →
      Covers U rows values) {context_type type : T}
    (hok : RowsValid (case_rows.map fun row => row.1 :: row.2)) {value_spaces : List (Space T K)}
    {predicates : List (Predicate T K)}
    (h : filter_by_type types unmatched context_type type case_rows s value_spaces predicates path = .ok none)
    (hty : U.HasType v type) (hmatch : s.Matches U v) {vs : List U.Value} (hvs : RowMatches U vs value_spaces) :
    ∃ row ∈ case_rows, row.1.Matches U v ∧ RowMatches U vs row.2 := by
  set remaining := remaining_rows types type case_rows with hremaining_eq
  set sorted_keys := sorted_property_keys types s remaining with hkeys_eq
  set sorted_additional_keys := sorted_additional_property_keys types s remaining with hadditional_keys_eq
  have hrem : ∀ row ∈ remaining, row.1.Valid ∧ ∀ space ∈ row.2, space.Valid := fun row hrow => by
    obtain ⟨r, hr, hsing, -, hrest⟩ := mem_remaining_rows.mp hrow
    have hr := hok _ (mem_map_of_mem hr)
    exact ⟨valid_iff.mp (hr r.1 (.head _)) row.1 hsing, fun space hspace => hr space (.tail _ (hrest ▸ hspace))⟩
  have hrows : RowsValid (remaining.map fun row =>
      expand_properties types sorted_keys sorted_additional_keys row.1 row.1.type path ++ row.2) := by
    intro row hrow
    obtain ⟨r, hr, rfl⟩ := mem_map.mp hrow
    exact forall_mem_append.mpr ⟨expand_properties_valid (hrem r hr).1, (hrem r hr).2⟩
  obtain ⟨row, hrow, hmatches⟩ := hunmatched _ _ _ hrows h
    (expand_values U sorted_keys sorted_additional_keys v ++ vs) (rowMatches_expand_properties.mpr
      ⟨fun key _ => expand_property_matches hty hmatch key,
        fun key _ => expand_additional_property_matches hty hmatch key, hvs⟩)
  obtain ⟨r, hr, rfl⟩ := mem_map.mp hrow
  obtain ⟨hprops, hadd, hrest⟩ := rowMatches_expand_properties.mp hmatches
  obtain ⟨row, hrow, hsing, hsub, hrow2⟩ := mem_remaining_rows.mp hr
  have hkeys : ∀ p ∈ r.1.properties, p.1 ∈ sorted_keys := fun p hp => mem_mergeSort.mpr
    (mem_key_set.mpr ⟨r.1.properties, mem_cons_of_mem _ (mem_map_of_mem hr), p, hp, rfl⟩)
  have hadditional_keys : ∀ p ∈ r.1.additional_properties, p.1 ∈ sorted_additional_keys := fun p hp =>
    mem_mergeSort.mpr (mem_key_set.mpr ⟨r.1.additional_properties, mem_cons_of_mem _ (mem_map_of_mem hr), p, hp, rfl⟩)
  have hr1 : r.1.Matches U v := matches_of_expand (hrem r hr).1
    (U.hasType_of_is_subtype_of type r.1.type hsub v hty) hkeys hadditional_keys hprops hadd
  exact ⟨row, hrow, matches_iff.mpr ⟨r.1, hsing, hr1⟩, hrow2 ▸ hrest⟩

end

variable [DecidableEq K] {types : StaticTypes T K} {U : Universe types}

section
omit [DecidableEq K]

/-- When the loop finds no witness, each type on the stack was handled, or its subtypes were. -/
lemma exhaust_types_sound {filter : T → Checked (Witnesses T K)} {P : U.Value → Prop}
    (hfilter : ∀ type, filter type = .ok none → ∀ v, U.HasType v type → P v) {keys : List K} {multiple : Bool} (fuel : Nat)
    (stack : List T) (witnesses : Witnesses T K)
    (h : exhaust_types types filter keys multiple fuel stack witnesses = .ok none) :
    witnesses = none ∧ ∀ type ∈ stack, ∀ v, U.HasType v type → P v := by
  induction fuel generalizing stack witnesses with
  | zero => simp [exhaust_types] at h
  | succ fuel ih =>
    cases stack with
    | nil => exact ⟨Except.ok.inj h, by simp⟩
    | cons type stack =>
      rw [exhaust_types] at h
      rw [forall_mem_cons]
      by_cases hnever : types.is_subtype_of type types.never_type = true
      · rw [if_pos hnever] at h
        obtain ⟨hwits, hstack⟩ := ih _ _ h
        exact ⟨hwits, fun v hv =>
          absurd (U.hasType_of_is_subtype_of _ _ hnever v hv) (U.not_hasType_never v), hstack⟩
      rw [if_neg hnever] at h
      obtain ⟨result, hres, h⟩ := bind_eq_ok_iff.mp h
      cases result with
      | none =>
        obtain ⟨hwits, hstack⟩ := ih _ _ h
        exact ⟨hwits, hfilter type hres, hstack⟩
      | some result =>
        split_ifs at h with hsealed hmultiple
        · obtain ⟨hwits, hstack⟩ := ih _ _ h
          rw [forall_mem_append] at hstack
          refine ⟨hwits, fun v hv => ?_, hstack.1⟩
          obtain ⟨subtype, hsub, hv⟩ := U.get_subtypes_covers keys type hsealed v hv
          exact hstack.2 subtype hsub v hv
        · exact absurd (ih _ _ h).1 (Option.some_ne_none _)
        · exact absurd (Except.ok.inj h) (Option.some_ne_none _)

lemma first_unmatched_eq_none {exhaust : SingleSpace T K → Checked (Witnesses T K)}
    {single_spaces : List (SingleSpace T K)} (h : first_unmatched exhaust single_spaces = .ok none) :
    ∀ s ∈ single_spaces, exhaust s = .ok none := by
  induction single_spaces with
  | nil => simp
  | cons single single_spaces ih =>
    obtain ⟨witnesses, hsing, h⟩ := bind_eq_ok_iff.mp h
    cases witnesses with
    | some witnesses => exact absurd (Except.ok.inj h) (Option.some_ne_none _)
    | none => exact forall_mem_cons.mpr ⟨hsing, ih h⟩

lemma mapM_split_row_eq_ok_iff {case_rows : List (List (Space T K))} {rows : List (Space T K × List (Space T K))} :
    case_rows.mapM split_row = .ok rows ↔ case_rows = rows.map fun row => row.1 :: row.2 := by
  induction case_rows generalizing rows with
  | nil => cases rows <;> simp
  | cons row case_rows ih =>
    rw [mapM_cons]
    cases row with
    | nil => cases rows <;> simp [split_row]
    | cons first rest =>
      rw [split_row, ok_bind, bind_eq_ok_iff]
      constructor
      · rintro ⟨rows', hrows', hrows⟩
        rw [← Except.ok.inj hrows, map_cons, ih.mp hrows']
      · intro h
        cases rows with
        | nil => exact absurd h (cons_ne_nil _ _)
        | cons row rows =>
          obtain ⟨hrow, htail⟩ := cons.inj h
          cases hrow
          exact ⟨rows, ih.mpr htail, rfl⟩

end

/-- When the checker finds no witness, the rows cover the value patterns. -/
lemma unmatched_sound (fuel : Nat) (case_rows : List (List (Space T K))) (value_patterns : List (Space T K))
    (predicates : List (Predicate T K)) (multiple : Bool) (hok : RowsValid case_rows)
    (h : unmatched types fuel case_rows value_patterns predicates multiple = .ok none) :
    Covers U case_rows value_patterns := by
  induction fuel generalizing case_rows value_patterns predicates multiple with
  | zero => simp [unmatched] at h
  | succ fuel ih =>
    cases value_patterns with
    | nil =>
      rw [unmatched_nil] at h
      obtain ⟨_, hchk, hbody⟩ := bind_eq_ok_iff.mp h
      cases case_rows with
      | nil => exact absurd (Except.ok.inj hbody) (Option.some_ne_none _)
      | cons row case_rows =>
        intro vs hvs
        rw [check_eq_ok_iff, all_cons, Bool.and_eq_true, decide_eq_true_eq, length_eq_zero_iff] at hchk
        exact ⟨row, (.head _), hchk.1 ▸ hvs⟩
    | cons first value_spaces =>
      obtain ⟨-, -, hbody⟩ := bind_eq_ok_iff.mp h
      obtain ⟨rows, hrows, hloop⟩ := bind_eq_ok_iff.mp hbody
      obtain rfl := mapM_split_row_eq_ok_iff.mp hrows
      intro vs hvs
      obtain ⟨v, rest, hv, hrest, rfl⟩ := forall₂_cons_right_iff.mp hvs
      obtain ⟨single, hsing, hmatch⟩ := matches_iff.mp hv
      have hexh := first_unmatched_eq_none hloop single hsing
      obtain ⟨-, hcovered⟩ := exhaust_types_sound
        (fun type hfilter v hty hmatch => filter_by_type_sound
          (fun rows values predicates hrows h => ih rows values predicates false hrows h) hok hfilter hty hmatch hrest)
        _ _ _ hexh
      obtain ⟨row, hrow, hfst, hothers⟩ := hcovered single.type (mem_singleton_self _) v
        (matches_iff.mp hmatch).1 hmatch
      exact ⟨row.1 :: row.2, mem_map_of_mem hrow, Forall₂.cons hfst hothers⟩

end dart.exhaustiveness
