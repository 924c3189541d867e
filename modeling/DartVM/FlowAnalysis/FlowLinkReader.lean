import DartVM.FlowAnalysis.FlowLinkDiff

namespace dart.flow_analysis
open dart.parent_tree FlowLinkReader ParentTree
variable {Link : Type} {links : FlowLinks Link} {left right ancestor : Option Link}
  {entries : List (FlowLinkDiffEntry Link)}

/-- What `diff` reports about two program states. -/
structure IsDifference (links : FlowLinks Link) (left right ancestor : Option Link)
    (entries : List (FlowLinkDiffEntry Link)) : Prop where
  nearest : links.tree.IsNearestCommon left right ancestor
  nodup : (entries.map FlowLinkDiffEntry.key).Nodup
  occurs : ∀ key, key ∈ entries.map FlowLinkDiffEntry.key ↔
    links.tree.OccursBelow links.key ancestor left key ∨ links.tree.OccursBelow links.key ancestor right key
  lookups : ∀ entry ∈ entries, entry.left = links.lookup left entry.key ∧ entry.right = links.lookup right entry.key ∧
    entry.ancestor = links.lookup ancestor entry.key

/-- The two arguments of a diff. -/
def sides (left right : Option Link) : Side → Option Link
  | .left => left
  | .right => right

lemma walked_start : Walked links (sides left right) (sides left right) [] where
  nodup := List.nodup_nil
  above _ := .refl
  occurs key := by
    refine iff_of_false (by simp [keys]) ?_
    rintro ⟨side, h⟩
    exact not_occursBelow_self h
  first _ _ h := by simp at h
  absent _ _ _ := rfl
  previous_for_key _ h := by simp at h

lemma keepsCommon_start : KeepsCommon links (sides left right) (sides left right) := fun _ h => h

section
variable (h : Walked links (sides left right) (fun _ => ancestor) entries) {entry : FlowLinkDiffEntry Link}
include h

section
variable (hent : entry ∈ entries)
include hent

lemma Walked.previous_for_key_eq : entry.previous_for_key = links.lookup ancestor entry.key := by
  obtain ⟨_, hprev⟩ := h.previous_for_key entry hent
  exact hprev

lemma Walked.right_eq : entry.right = links.lookup right entry.key := by
  rw [FlowLinkDiffEntry.right, h.previous_for_key_eq hent]
  exact (h.first .right entry hent).symm

lemma Walked.left_eq : entry.left = links.lookup left entry.key := by
  rw [FlowLinkDiffEntry.left, h.previous_for_key_eq hent]
  exact (h.first .left entry hent).symm

end

lemma Walked.isDifference (hcommon : KeepsCommon links (sides left right) fun _ => ancestor) :
    IsDifference links left right ancestor entries where
  nearest := by
    refine ⟨h.above .left, h.above .right, fun other hl hr => hcommon other (fun side => ?_) .left⟩
    cases side
    · exact hl
    · exact hr
  nodup := h.nodup
  occurs key := by
    refine (h.occurs key).trans ⟨?_, ?_⟩
    · rintro ⟨side, hside⟩
      cases side
      · exact .inl hside
      · exact .inr hside
    · rintro (hl | hr)
      · exact ⟨.left, hl⟩
      · exact ⟨.right, hr⟩
  lookups entry hent := ⟨h.left_eq hent, h.right_eq hent, h.previous_for_key_eq hent⟩

end

variable (link : Option Link)

lemma update_sides_left : Function.update (sides left right) .left link = sides link right := by
  funext side
  cases side <;> rfl

lemma update_sides_right : Function.update (sides left right) .right link = sides left link := by
  funext side
  cases side <;> rfl

variable (links) in
lemma walk_to_same_depth_spec (left right : Option Link) : ∃ entries left' right',
    Yields (walk_to_same_depth links left right) [] entries (left', right') ∧
    Walked links (sides left right) (sides left' right') entries ∧
    KeepsCommon links (sides left right) (sides left' right') ∧ links.tree.height left' = links.tree.height right' := by
  by_cases hgt : links.tree.height left > links.tree.height right
  · obtain ⟨entries, left', hrun, hwalk, hkeeps, hheight⟩ := walk_spec .left .right (by decide)
      (links.tree.height left) walked_start (@keepsCommon_start _ links left right) rfl hgt.le
    rw [update_sides_left] at hwalk hkeeps
    refine ⟨entries, left', right, ?_, hwalk, hkeeps, hheight⟩
    intro diff_indices hidx
    rw [walk_to_same_depth, depth_eq_height, depth_eq_height, if_pos hgt]
    exact hrun.bind (.done (left', right)) diff_indices hidx
  obtain ⟨entries, right', hrun, hwalk, hkeeps, hheight⟩ := walk_spec .right .left (by decide)
    (links.tree.height right) walked_start (@keepsCommon_start _ links left right) rfl (not_lt.mp hgt)
  rw [update_sides_right] at hwalk hkeeps
  refine ⟨entries, left, right', ?_, hwalk, hkeeps, hheight.symm⟩
  intro diff_indices hidx
  rw [walk_to_same_depth, depth_eq_height, depth_eq_height, if_neg hgt]
  exact hrun.bind (.done (left, right')) diff_indices hidx

lemma indexed_nil {diff_indices : List (Option Nat)} (h : Clear diff_indices) :
    Indexed ([] : List (FlowLinkDiffEntry Link)) diff_indices := by
  intro key index
  rw [h key]
  simp [keys]

/-- The reader between two calls: the cache answers the lookups from the current link. -/
structure FlowLinkReader.Valid (links : FlowLinks Link) (reader : FlowLinkReader Link) : Prop where
  clear : Clear reader.diff_indices
  cache : ∀ key, list_get reader.cache key = links.lookup reader.current key

lemma FlowLinkReader.new_valid : (new : FlowLinkReader Link).Valid links where
  clear _ := rfl
  cache _ := lookup_none.symm

/-- Storing the right components gives the lookups from the right link. -/
lemma list_get_stored {cache : List (Option Link)} {lookup : Nat → Option Link}
    (hents : ∀ entry ∈ entries, entry.right = lookup entry.key)
    (hcache : ∀ key ∉ keys entries, list_get cache key = lookup key) (key : Nat) :
    list_get (entries.foldl (fun cache entry => list_set cache entry.key entry.right) cache) key = lookup key := by
  induction entries generalizing cache with
  | nil => exact hcache key List.not_mem_nil
  | cons entry entries ih =>
    refine ih (fun other hother => hents other (List.mem_cons_of_mem _ hother)) fun other hother => ?_
    rw [list_get_set]
    split_ifs with heq
    · rw [heq]
      exact hents entry List.mem_cons_self
    · exact hcache other fun h => (List.mem_cons.mp h).elim heq hother

lemma isDifference_self : IsDifference links link link link [] := by
  have hsides : sides link link = fun _ => link := by
    funext side
    cases side <;> rfl
  have hwalk : Walked links (sides link link) (sides link link) [] := walked_start
  have hkeeps : KeepsCommon links (sides link link) (sides link link) := keepsCommon_start
  nth_rewrite 2 [hsides] at hwalk hkeeps
  exact hwalk.isDifference hkeeps

variable [DecidableEq Link]

variable (links) in
/-- The ancestor and the entries depend on the two links only, and the scratch area is
left as it was found. -/
lemma diff_core_spec (left right : Option Link) : ∃ ancestor entries,
    Walked links (sides left right) (fun _ => ancestor) entries ∧
    KeepsCommon links (sides left right) (fun _ => ancestor) ∧ ∀ diff_indices, Clear diff_indices → ∃ diff_indices',
      diff_core links diff_indices left right = .ok (ancestor, entries, diff_indices') ∧ Clear diff_indices' := by
  obtain ⟨entries1, left', right', hrun1, hwalk1, hkeeps1, hheight⟩ := walk_to_same_depth_spec links left right
  obtain ⟨entries, ancestor, hrun, hwalk, hkeeps⟩ :=
    walk_both_spec (depth links.deref left' + 1) hwalk1 hkeeps1 hheight (by rw [depth_eq_height]; exact Nat.lt_succ_self _)
  refine ⟨ancestor, entries, hwalk, hkeeps, fun diff_indices hclear => ?_⟩
  obtain ⟨diff_indices₁, hres1, hidx1⟩ := hrun1 diff_indices (indexed_nil hclear)
  obtain ⟨diff_indices₂, hres2, hidx2⟩ := hrun diff_indices₁ hidx1
  obtain ⟨diff_indices', hclr, hclear'⟩ := clear_indices_spec hwalk.nodup hidx2
  refine ⟨diff_indices', ?_, hclear'⟩
  rw [diff_core, hres1, ok_bind]
  dsimp only [sides] at hres2 ⊢
  rw [hres2, ok_bind]
  rw [hclr, ok_bind, pure_eq_ok]

variable {reader : FlowLinkReader Link}

lemma FlowLinkReader.set_current_spec (h : reader.Valid links) (value : Option Link) :
    ∃ reader', reader.set_current links value = .ok reader' ∧ reader'.Valid links ∧ reader'.current = value := by
  rw [set_current]
  by_cases hval : value = reader.current
  · rw [if_pos hval]
    exact ⟨reader, rfl, h, hval.symm⟩
  rw [if_neg hval]
  obtain ⟨ancestor, entries, hwalk, -, hrun⟩ := diff_core_spec links reader.current value
  obtain ⟨diff_indices', hres, hclear⟩ := hrun reader.diff_indices h.clear
  rw [hres]
  refine ⟨_, rfl, ⟨hclear, ?_⟩, rfl⟩
  refine list_get_stored (fun entry hent => hwalk.right_eq hent) fun key hkey => ?_
  rw [h.cache key]
  exact (hwalk.absent .left key hkey).trans (hwalk.absent .right key hkey).symm

/-- What a call has to return. -/
def Correct (links : FlowLinks Link) : Call Link → Answer Link → Prop
  | .get link key, .link found => links.tree.IsNearest links.key key link found
  | .diff left right, .difference ancestor entries => IsDifference links left right ancestor entries
  | _, _ => False

variable (links) in
/-- Every call has a correct answer that a reader gives in whatever valid state it is. -/
lemma perform_spec (call : Call Link) : ∃ answer, Correct links call answer ∧
    ∀ reader, FlowLinkReader.Valid links reader →
      ∃ reader', perform links reader call = .ok (reader', answer) ∧ reader'.Valid links := by
  cases call with
  | get link key =>
    refine ⟨.link (links.lookup link key), lookup_isNearest link, fun reader h => ?_⟩
    cases link with
    | none => exact ⟨reader, by rw [Links.lookup, lookup_none]; rfl, h⟩
    | some link =>
      obtain ⟨reader', hrun, hok, hcur⟩ := FlowLinkReader.set_current_spec h (some link)
      refine ⟨reader', ?_, hok⟩
      rw [← hcur, ← hok.cache]
      simp [perform, FlowLinkReader.get, hcur, hrun]
  | diff left right =>
    by_cases heq : left = right
    · refine ⟨.difference left [], ?_, fun reader h => ⟨reader, ?_, h⟩⟩
      · rw [← heq]
        exact isDifference_self left
      · simp [perform, FlowLinkReader.diff, heq]
    obtain ⟨ancestor, entries, hwalk, hkeeps, hrun⟩ := diff_core_spec links left right
    refine ⟨.difference ancestor entries, hwalk.isDifference hkeeps, fun reader h => ?_⟩
    obtain ⟨diff_indices', hres, hclear⟩ := hrun reader.diff_indices h.clear
    refine ⟨{ reader with diff_indices := diff_indices' }, ?_, hclear, h.cache⟩
    simp [perform, FlowLinkReader.diff, heq, hres]

/-- Every call of every sequence of calls on one reader is answered correctly, and its
answer does not depend on the calls before it. -/
theorem reader_refines_lookup (links : FlowLinks Link) : ∃ answer : Call Link → Answer Link,
    (∀ call, Correct links call (answer call)) ∧
    ∀ calls, ∃ reader, run links .new calls = .ok (reader, calls.map answer) := by
  choose answer hcorr hperform using perform_spec links
  refine ⟨answer, hcorr, fun calls => ?_⟩
  suffices h : ∀ reader, Valid links reader → ∃ reader', run links reader calls = .ok (reader', calls.map answer) from
    h .new new_valid
  induction calls with
  | nil => exact fun reader _ => ⟨reader, rfl⟩
  | cons call calls ih =>
    intro reader h
    obtain ⟨reader1, hrun, hok⟩ := hperform call reader h
    obtain ⟨reader2, hrest⟩ := ih reader1 hok
    refine ⟨reader2, ?_⟩
    simp [run, hrun, hrest]

/-- Two branches after link `0`, which both write its key again, one of them after another key. -/
def twoBranches : FlowLinks (Fin 4) where
  deref
    | 0 => ⟨0, none, none, 1⟩
    | 1 => ⟨1, some 0, none, 2⟩
    | 2 => ⟨0, some 1, some 0, 3⟩
    | 3 => ⟨0, some 0, some 0, 2⟩
  depth_eq := by decide
  previous_for_key_eq := by decide +kernel

theorem reader_refines_lookup_twoBranches : ∃ answer : Call (Fin 4) → Answer (Fin 4),
    (∀ call, Correct twoBranches call (answer call)) ∧
    ∃ reader, run twoBranches .new [.diff (some 2) (some 3), .get (some 2) 0] =
      .ok (reader, [answer (.diff (some 2) (some 3)), answer (.get (some 2) 0)]) := by
  obtain ⟨answer, hcorr, hrun⟩ := reader_refines_lookup twoBranches
  exact ⟨answer, hcorr, hrun _⟩

end dart.flow_analysis
