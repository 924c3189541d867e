import DartVM.Exhaustiveness.Sound

namespace dart.exhaustiveness
open dart.worklist List Space List.Forall₂ SingleSpace
variable {T K : Type} {h : Nat}

section

mutual

/-- How deep the spaces of the properties are nested. -/
def SingleSpace.height : SingleSpace T K → Nat
  | .mk _ properties additional_properties =>
    max (properties_height properties) (properties_height additional_properties)

def Space.height : Space T K → Nat
  | .mk _ _ single_spaces => max_height single_spaces

def max_height : List (SingleSpace T K) → Nat
  | [] => 0
  | single :: single_spaces => max single.height (max_height single_spaces)

def properties_height : List (K × Space T K) → Nat
  | [] => 0
  | (_, space) :: properties => max (space.height + 1) (properties_height properties)

end

lemma max_height_le_iff {single_spaces : List (SingleSpace T K)} :
    max_height single_spaces ≤ h ↔ ∀ s ∈ single_spaces, s.height ≤ h := by
  induction single_spaces with
  | nil => simp [max_height]
  | cons s single_spaces ih => simp [max_height, ih]

lemma properties_height_le_iff {properties : List (K × Space T K)} :
    properties_height properties ≤ h ↔ ∀ p ∈ properties, p.2.height < h := by
  induction properties with
  | nil => simp [properties_height]
  | cons p properties ih =>
    rw [properties_height, max_le_iff, forall_mem_cons, ih]
    rfl

lemma Space.height_le_iff {space : Space T K} : space.height ≤ h ↔ ∀ s ∈ space.single_spaces, s.height ≤ h := by
  cases space
  exact max_height_le_iff

lemma SingleSpace.height_le_iff {s : SingleSpace T K} : s.height ≤ h ↔
    (∀ p ∈ s.properties, p.2.height < h) ∧ ∀ p ∈ s.additional_properties, p.2.height < h := by
  cases s
  rw [height, max_le_iff, properties_height_le_iff, properties_height_le_iff]
  rfl

@[simp] lemma Space.of_type_height (object : Nat) (path : List K) (type : T) :
    (of_type object path type).height = 0 := rfl

/-- Bounds for the heights of the spaces in a row. -/
def RowBounded (row : List (Space T K)) (heights : List Nat) : Prop :=
  List.Forall₂ (fun space h => space.height ≤ h) row heights

lemma rowBounded_map_append {keys : List K} {F : K → Space T K} {row : List (Space T K)}
    {heights : List Nat} (hkeys : ∀ key ∈ keys, (F key).height ≤ h) (hrow : RowBounded row heights) :
    RowBounded (keys.map F ++ row) (replicate keys.length h ++ heights) := by
  induction keys with
  | nil => exact hrow
  | cons key keys ih =>
    rw [forall_mem_cons] at hkeys
    exact cons hkeys.1 (ih hkeys.2)

end

section
variable [DecidableEq K] {types : StaticTypes T K} {s : SingleSpace T K} {h : Nat} {type : T} {path : List K}

lemma expand_property_height (hs : s.height ≤ h + 1) (key : K) :
    (expand_property types s type path key).height ≤ h := by
  rw [expand_property]
  cases hlook : s.properties.lookup key with
  | some space => exact Nat.lt_succ_iff.mp ((height_le_iff.mp hs).1 (key, space) (mem_of_lookup hlook))
  | none => simp

lemma expand_additional_property_height (hs : s.height ≤ h + 1) (key : K) :
    (expand_additional_property types s type path key).height ≤ h := by
  rw [expand_additional_property]
  cases hlook : s.additional_properties.lookup key with
  | some space => exact Nat.lt_succ_iff.mp ((height_le_iff.mp hs).2 (key, space) (mem_of_lookup hlook))
  | none => simp

/-- The columns that replace the first one are lower, because there are none when it has height zero. -/
lemma rowBounded_expand_properties {keys additional_keys : List K} (hs : s.height ≤ h)
    (hpos : keys ++ additional_keys ≠ [] → 0 < h) {row : List (Space T K)} {heights : List Nat}
    (hrow : RowBounded row heights) : RowBounded (expand_properties types keys additional_keys s type path ++ row)
      (replicate keys.length (h - 1) ++ (replicate additional_keys.length (h - 1) ++ heights)) := by
  rw [expand_properties, append_assoc]
  have hle (hne : keys ++ additional_keys ≠ []) : s.height ≤ h - 1 + 1 := by
    have := hpos hne
    omega
  refine rowBounded_map_append (fun key hkey => expand_property_height (hle ?_) key)
    (rowBounded_map_append (fun key hkey => expand_additional_property_height (hle ?_) key) hrow)
  · exact ne_nil_of_mem (mem_append_left _ hkey)
  · exact ne_nil_of_mem (mem_append_right _ hkey)

lemma height_pos_of_mem_key_set {maps : List (List (K × Space T K))}
    (hmaps : ∀ map ∈ maps, ∀ p ∈ map, p.2.height < h) {key : K} (hkey : key ∈ key_set maps) : 0 < h := by
  obtain ⟨map, hmap, p, hp, -⟩ := mem_key_set.mp hkey
  exact Nat.zero_lt_of_lt (hmaps map hmap p hp)

lemma height_pos_of_keys {remaining : List (SingleSpace T K × List (Space T K))} (hs : s.height ≤ h)
    (hrem : ∀ row ∈ remaining, row.1.height ≤ h)
    (hne : sorted_property_keys types s remaining ++ sorted_additional_property_keys types s remaining ≠ []) : 0 < h := by
  obtain ⟨key, hkey⟩ := exists_mem_of_ne_nil _ hne
  rw [mem_append, sorted_property_keys, sorted_additional_property_keys, mem_mergeSort, mem_mergeSort] at hkey
  obtain hkey | hkey := hkey
  · refine height_pos_of_mem_key_set (fun map hmap => ?_) hkey
    obtain rfl | hmap := mem_cons.mp hmap
    · exact (height_le_iff.mp hs).1
    · obtain ⟨row, hrow, rfl⟩ := mem_map.mp hmap
      exact (height_le_iff.mp (hrem row hrow)).1
  · refine height_pos_of_mem_key_set (fun map hmap => ?_) hkey
    obtain rfl | hmap := mem_cons.mp hmap
    · exact (height_le_iff.mp hs).2
    · obtain ⟨row, hrow, rfl⟩ := mem_map.mp hmap
      exact (height_le_iff.mp (hrem row hrow)).2

end

section
variable {types : StaticTypes T K} {heights : List Nat} {case_rows : List (List (Space T K))} {h : Nat}

/-- The loop over the stack ends, as the hierarchies of sealed types are finite. -/
lemma exhaust_types_settles (U : Universe types) {filter : Nat → T → Checked (Witnesses T K)}
    (hfilter : ∀ type, ∃ r, Settles (fun m => filter m type) r) (keys : List K) (multiple : Bool) (stack : List T) :
    ∀ witnesses, ∃ r, Settles (fun m : Nat × Nat =>
      exhaust_types types (filter m.1) keys multiple m.2 stack witnesses) r := by
  induction stack using worklist_induction U.wellFounded_subtypes with
  | nil => exact fun witnesses => ⟨witnesses, .of_succ_snd (settles_const witnesses)⟩
  | cons type stack ih =>
    intro witnesses
    have hrest := ih [] stack (by simp) (Perm.refl _)
    by_cases hnever : types.is_subtype_of type types.never_type = true
    · obtain ⟨r, hr⟩ := hrest witnesses
      refine ⟨r, .of_succ_snd ?_⟩
      simpa only [exhaust_types, if_pos hnever] using hr
    obtain ⟨result, hres⟩ := hfilter type
    have hstep {r} (h : Settles (fun m : Nat × Nat => result.elim
        (exhaust_types types (filter m.1) keys multiple m.2 stack witnesses)
        fun result =>
          if types.is_sealed type then
            exhaust_types types (filter m.1) keys multiple m.2 (stack ++ types.get_subtypes keys type) witnesses
          else if multiple then
            exhaust_types types (filter m.1) keys multiple m.2 stack (some (witnesses.getD [] ++ result))
          else .ok (some (witnesses.getD [] ++ result))) r) :
        Settles (fun m : Nat × Nat => exhaust_types types (filter m.1) keys multiple m.2 (type :: stack) witnesses) r := by
      refine .of_succ_snd ?_
      simp only [exhaust_types, if_neg hnever]
      refine hres.fst.bind ?_
      cases result <;> exact h
    cases result with
    | none =>
      obtain ⟨r, hr⟩ := hrest witnesses
      exact ⟨r, hstep hr⟩
    | some result =>
      by_cases hsealed : types.is_sealed type = true
      · obtain ⟨r, hr⟩ := ih (types.get_subtypes keys type) (stack ++ types.get_subtypes keys type)
          (fun subtype hsub => ⟨hsealed, keys, hsub⟩) perm_append_comm witnesses
        exact ⟨r, hstep (by simpa only [Option.elim_some, if_pos hsealed] using hr)⟩
      cases multiple with
      | true =>
        obtain ⟨r, hr⟩ := hrest (some (witnesses.getD [] ++ result))
        exact ⟨r, hstep (by simpa only [Option.elim_some, if_neg hsealed, if_true] using hr)⟩
      | false => exact ⟨_, hstep (by simpa only [Option.elim_some, if_neg hsealed, Bool.false_eq_true,
        if_false] using settles_const _)⟩

lemma first_unmatched_settles {exhaust : Nat → SingleSpace T K → Checked (Witnesses T K)}
    {single_spaces : List (SingleSpace T K)} (hexh : ∀ s ∈ single_spaces, ∃ r, Settles (fun m => exhaust m s) r) :
    ∃ r, Settles (fun m => first_unmatched (exhaust m) single_spaces) r := by
  induction single_spaces with
  | nil => exact ⟨none, settles_const none⟩
  | cons single single_spaces ih =>
    rw [forall_mem_cons] at hexh
    obtain ⟨result, hres⟩ := hexh.1
    cases result with
    | some witnesses => exact ⟨some witnesses, hres.bind (settles_const _)⟩
    | none =>
      obtain ⟨r, hr⟩ := ih hexh.2
      exact ⟨r, hres.bind hr⟩

lemma exists_split_rows (hrows : ∀ row ∈ case_rows, RowBounded row (h :: heights)) :
    ∃ rows : List (Space T K × List (Space T K)), case_rows = rows.map (fun row => row.1 :: row.2) ∧
      ∀ row ∈ rows, row.1.height ≤ h ∧ RowBounded row.2 heights := by
  induction case_rows with
  | nil => exact ⟨[], rfl, by simp⟩
  | cons row case_rows ih =>
    rw [forall_mem_cons] at hrows
    obtain ⟨rows, rfl, hrest⟩ := ih hrows.2
    obtain ⟨first, rest, hfst, hrow, rfl⟩ := forall₂_cons_right_iff.mp hrows.1
    exact ⟨(first, rest) :: rows, rfl, forall_mem_cons.mpr ⟨⟨hfst, hrow⟩, hrest⟩⟩

lemma check_lengths {n : Nat} (hrows : ∀ row ∈ case_rows, RowBounded row heights) (hn : heights.length = n) :
    check (case_rows.all fun row => row.length = n) = .ok () := by
  rw [check_eq_ok_iff, all_eq_true]
  intro row hrow
  exact decide_eq_true ((hrows row hrow).length_eq.trans hn)

/-- One type, when the checker returns for all lower columns. -/
lemma filter_by_type_settles [DecidableEq K] (ih : ∀ new l, (∀ b ∈ new, b < h) → l.Perm (new ++ heights) →
      ∀ (case_rows : List (List (Space T K))) (value_patterns : List (Space T K)) (predicates : List (Predicate T K)),
        (∀ row ∈ case_rows, RowBounded row l) → RowBounded value_patterns l →
        ∃ r, Settles (fun fuel => unmatched types fuel case_rows value_patterns predicates false) r)
    {single : SingleSpace T K} (hs : single.height ≤ h) {rows : List (Space T K × List (Space T K))}
    (hrows : ∀ row ∈ rows, row.1.height ≤ h ∧ RowBounded row.2 heights) {value_spaces : List (Space T K)}
    (hvals : RowBounded value_spaces heights) (context_type type : T) (predicates : List (Predicate T K))
    (path : List K) : ∃ r, Settles (fun fuel => filter_by_type types
      (fun rows values predicates => unmatched types fuel rows values predicates false) context_type type rows single
      value_spaces predicates path) r := by
  have hrem : ∀ row ∈ remaining_rows types type rows, row.1.height ≤ h ∧ RowBounded row.2 heights := by
    intro row hrow
    obtain ⟨r, hr, hsing, -, hrest⟩ := mem_remaining_rows.mp hrow
    exact ⟨height_le_iff.mp (hrows r hr).1 row.1 hsing, hrest ▸ (hrows r hr).2⟩
  have hpos := @height_pos_of_keys T K _ types single h _ hs fun row hrow => (hrem row hrow).1
  set keys := sorted_property_keys types single (remaining_rows types type rows)
  set additional_keys := sorted_additional_property_keys types single (remaining_rows types type rows)
  refine ih (replicate keys.length (h - 1) ++ replicate additional_keys.length (h - 1))
    (replicate keys.length (h - 1) ++ (replicate additional_keys.length (h - 1) ++ heights)) (fun b hb => ?_)
    (by rw [append_assoc]) _ _ _ (fun row hrow => ?_) (rowBounded_expand_properties hs hpos hvals)
  · have hne : keys ++ additional_keys ≠ [] := fun hnil => by
      rw [append_eq_nil_iff] at hnil
      rw [hnil.1, hnil.2] at hb
      exact absurd hb not_mem_nil
    have hb : b = h - 1 := (mem_append.mp hb).elim eq_of_mem_replicate eq_of_mem_replicate
    have := hpos hne
    omega
  · obtain ⟨r, hr, rfl⟩ := mem_map.mp hrow
    exact rowBounded_expand_properties (hrem r hr).1 hpos (hrem r hr).2

/-- The checker returns, as the columns get lower. -/
lemma unmatched_settles [DecidableEq K] (U : Universe types) (heights : List Nat) :
    ∀ (case_rows : List (List (Space T K))) (value_patterns : List (Space T K)) (predicates : List (Predicate T K))
      (multiple : Bool), (∀ row ∈ case_rows, RowBounded row heights) → RowBounded value_patterns heights →
      ∃ r, Settles (fun fuel => unmatched types fuel case_rows value_patterns predicates multiple) r := by
  induction heights using worklist_induction (wellFounded_lt (α := Nat)) with
  | nil =>
    intro case_rows value_patterns predicates multiple hrows hvals
    obtain rfl := forall₂_nil_right_iff.mp hvals
    refine ⟨if case_rows.isEmpty then some [⟨predicates⟩] else none, .of_succ ?_⟩
    have hchk : check (case_rows.all fun row => row.length = 0) = .ok () := check_lengths hrows rfl
    simp only [unmatched_nil, hchk, ok_bind]
    split_ifs
    · exact settles_const _
    · exact settles_const _
  | cons h heights ih =>
    intro case_rows value_patterns predicates multiple hrows hvals
    have hchk := check_lengths (n := heights.length + 1) hrows rfl
    obtain ⟨first, value_spaces, hfst, hspaces, rfl⟩ := forall₂_cons_right_iff.mp hvals
    rw [← hspaces.length_eq] at hchk
    obtain ⟨rows, rfl, hbnd⟩ := exists_split_rows hrows
    have hsplit : (rows.map fun row => row.1 :: row.2).mapM split_row = .ok rows := mapM_split_row_eq_ok_iff.mpr rfl
    have hsettles : ∃ r, Settles (fun fuel => first_unmatched (fun single => exhaust_types types (fun type =>
        filter_by_type types (fun rows values predicates => unmatched types fuel rows values predicates false)
        single.type type rows single value_spaces predicates first.path) (key_set (rows.flatMap fun row =>
        row.1.single_spaces.map additional_properties)) multiple fuel [single.type] none) first.single_spaces) r := by
      refine first_unmatched_settles fun single hsing => ?_
      have hs : single.height ≤ h := height_le_iff.mp hfst single hsing
      obtain ⟨r, hr⟩ := exhaust_types_settles U
        (fun type => filter_by_type_settles
          (fun new l hnew hperm rows values predicates => ih new l hnew hperm rows values predicates false) hs hbnd
          hspaces single.type type predicates first.path)
        (key_set (rows.flatMap fun row => row.1.single_spaces.map additional_properties)) multiple
        [single.type] none
      exact ⟨r, hr.diagonal⟩
    obtain ⟨r, hr⟩ := hsettles
    refine ⟨r, .of_succ ?_⟩
    simpa only [unmatched, length_cons, hchk, hsplit, ok_bind] using hr

end

section
variable [DecidableEq K] {types : StaticTypes T K} (U : Universe types) {cases : List (Space T K)}

/-- The checker returns for one column, and nothing is unmatched when it returns `none`. -/
lemma unmatched_correct (value : Space T K) (hok : ∀ space ∈ cases, space.Valid) (multiple : Bool) :
    ∃ r, Settles (fun fuel => unmatched types fuel (cases.map fun space => [space]) [value] [] multiple) r ∧
      (r = none → ∀ v, value.Matches U v → ∃ space ∈ cases, space.Matches U v) := by
  have hbnd : ∀ space ∈ value :: cases, space.height ≤ ((value :: cases).map Space.height).sum :=
    fun space hspace => le_sum_of_mem (mem_map_of_mem hspace)
  rw [forall_mem_cons] at hbnd
  have hrows : ∀ row ∈ cases.map fun space => [space], RowBounded row [((value :: cases).map Space.height).sum] := by
    intro row hrow
    obtain ⟨space, hspace, rfl⟩ := mem_map.mp hrow
    exact cons (hbnd.2 space hspace) .nil
  have hrowsValid : RowsValid (cases.map fun space => [space]) := by
    intro row hrow
    obtain ⟨space, hspace, rfl⟩ := mem_map.mp hrow
    exact forall_mem_singleton.mpr (hok space hspace)
  obtain ⟨r, hr⟩ := unmatched_settles U _ _ [value] [] multiple hrows (cons hbnd.1 .nil)
  refine ⟨r, hr, fun hnone v hv => ?_⟩
  obtain ⟨fuel, hfuel⟩ := hr.exists_eq
  obtain ⟨row, hrow, hmatches⟩ := unmatched_sound fuel _ _ _ _ hrowsValid (hnone ▸ hfuel) [v] (cons hv .nil)
  obtain ⟨space, hspace, rfl⟩ := mem_map.mp hrow
  exact ⟨space, hspace, (forall₂_cons.mp hmatches).1⟩

/-- The error is for a case whose values earlier cases match. -/
def CoveredBefore (value_type : T) (cases : List (Space T K)) (error : ExhaustivenessError T K) : Prop :=
  ∃ i space, error = .unreachable_case value_type cases i ∧ cases[i]? = some space ∧
    ∀ v, space.Matches U v → ∃ earlier ∈ cases.take i, earlier.Matches U v

lemma unreachable_cases_correct (value_type : T) (hok : ∀ space ∈ cases, space.Valid) (compute_unreachable : Bool) :
    ∃ errors, Settles (fun fuel => unreachable_cases types fuel value_type cases compute_unreachable) errors ∧
      ∀ error ∈ errors, CoveredBefore U value_type cases error := by
  cases compute_unreachable with
  | false => exact ⟨[], settles_const [], by simp⟩
  | true =>
    simp only [unreachable_cases, length_map, if_true]
    refine settles_foldlM (fun i hi errors herrors => ?_) [] (by simp)
    have hi : i < cases.length := by
      have := mem_range'_1.mp hi
      omega
    have hrow : (cases.map fun space => [space])[i]? = some [cases[i]] := by simp [hi]
    simp only [hrow, ← map_take]
    obtain ⟨r, hr, hcovers⟩ := unmatched_correct U cases[i]
      (fun space hspace => hok space (mem_of_mem_take hspace) : ∀ space ∈ cases.take i, space.Valid) false
    cases r with
    | some witnesses => exact ⟨errors, hr.bind (settles_const _), herrors⟩
    | none =>
      refine ⟨errors ++ [.unreachable_case value_type cases i], hr.bind (settles_const _), ?_⟩
      rw [forall_mem_append, forall_mem_singleton]
      exact ⟨herrors, i, cases[i], rfl, getElem?_eq_getElem hi, hcovers rfl⟩

/-- The checker returns. When it reports nothing, every value is matched, and a case that is reported
to be unreachable has its values matched before. -/
theorem exhaustiveness_sound : (∀ (value_space : Space T K) (cases : List (Space T K)), (∀ space ∈ cases, space.Valid) →
      ∃ r, Settles (fun fuel => check_exhaustiveness types fuel value_space cases) r ∧
        (r = none → ∀ v, value_space.Matches U v → ∃ space ∈ cases, space.Matches U v)) ∧
    ∀ (value_type : T) (cases : List (Space T K)) (compute_unreachable : Bool), (∀ space ∈ cases, space.Valid) →
      ∃ errors, Settles (fun fuel => report_errors types fuel value_type cases compute_unreachable) errors ∧
        ((∀ witnesses, .non_exhaustive value_type cases witnesses ∉ errors) →
          ∀ v, U.HasType v value_type → ∃ space ∈ cases, space.Matches U v) ∧
        ∀ error ∈ errors, CoveredBefore U value_type cases error ∨
          ∃ witnesses, error = .non_exhaustive value_type cases witnesses := by
  refine ⟨fun value_space _ hok => unmatched_correct U value_space hok true,
    fun value_type cases compute_unreachable hok => ?_⟩
  obtain ⟨errors, herrors, hcovered⟩ := unreachable_cases_correct U value_type hok compute_unreachable
  obtain ⟨r, hr, hcovers⟩ := unmatched_correct U (.of_type 0 [] value_type) hok true
  cases r with
  | none =>
    refine ⟨errors, herrors.bind (hr.bind (settles_const _)), fun _ v hv => ?_,
      fun error herror => .inl (hcovered error herror)⟩
    exact hcovers rfl v ((of_type_matches _ _ _).mpr hv)
  | some witnesses =>
    refine ⟨errors ++ [.non_exhaustive value_type cases witnesses], herrors.bind (hr.bind (settles_const _)),
      fun hnone => absurd (mem_append_right _ (mem_singleton_self _)) (hnone witnesses), ?_⟩
    rw [forall_mem_append, forall_mem_singleton]
    exact ⟨fun error herror => .inl (hcovered error herror), .inr ⟨witnesses, rfl⟩⟩

end

/-- The cases `[true]` and `[false]` for a list of one element. -/
theorem exhaustiveness_sound_list :
    let cases := [list_pattern 0 true, list_pattern 2 false]
    (∀ space ∈ cases, space.Valid) ∧
      (∀ fuel, check_exhaustiveness sample_types (fuel + 6) (.of_type 4 [] (.list, false)) cases = .ok none) ∧
      ∀ v : Sample, (Space.of_type 4 [] (.list, false)).Matches sample_universe v →
        ∃ space ∈ cases, space.Matches sample_universe v := by
  intro cases
  have hok : ∀ space ∈ cases, space.Valid := by
    simp [cases, list_pattern, Space.Valid, AllValid, SingleSpace.Valid, PropertiesValid, of_type]
  have hnone : ∀ fuel,
      check_exhaustiveness sample_types (fuel + 6) (.of_type 4 [] (.list, false)) cases = .ok none := by
    intro fuel
    with_unfolding_all rfl
  obtain ⟨r, ⟨n, hn⟩, hsound⟩ := (exhaustiveness_sound sample_universe).1 (.of_type 4 [] (.list, false)) cases hok
  exact ⟨hok, hnone, hsound (Except.ok.inj ((hn (n + 6) (by omega)).symm.trans (hnone n)))⟩

end dart.exhaustiveness
