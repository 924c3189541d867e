import Mathlib.Tactic.Ring
import DartVM.Lib.DotSegments

namespace dart.uri
open dot_segments List

/-- The code units of a string. -/
abbrev CodeUnits := List Nat

/-- The character `.`. -/
abbrev dot : Nat := 46

/-- The character `/`. -/
abbrev slash : Nat := 47

/-- `lastIndexOf` of a character, below an index; -1 if there is none. -/
def last_index_of (s : CodeUnits) (c : Nat) : Nat → Int
  | 0 => -1
  | n + 1 => if s[n]? = some c then n else last_index_of s c n

/-- The number of `../` at the beginning of a reference. -/
def leading_back_count : CodeUnits → Nat
  | 46 :: 46 :: 47 :: reference => leading_back_count reference + 1
  | _ => 0

/-- The loop that drops a segment of the base for each `../`: where the base ends, and how many `../`
are left. -/
def drop_segments (base : CodeUnits) : Nat → Int → Int × Nat
  | 0, base_end => (base_end, 0)
  | back_count + 1, base_end =>
    if 0 < base_end then
      let new_end := last_index_of base slash base_end.toNat
      if new_end < 0 then
        (base_end, back_count + 1)
      else
        let delta := base_end - new_end
        -- A segment `.` or `..` of the base is left to `_removeDotSegments`.
        if (delta = 2 ∨ delta = 3) ∧ base[(new_end + 1).toNat]? = some dot ∧
            (delta = 2 ∨ base[(new_end + 2).toNat]? = some dot) then
          (base_end, back_count + 1)
        else
          drop_segments base back_count new_end
    else
      (base_end, back_count + 1)

/-- `_mergePaths`. -/
def merge_paths (base reference : CodeUnits) : CodeUnits :=
  let back_count := leading_back_count reference
  let ref_start := 3 * back_count
  let (base_end, back_count) := drop_segments base back_count (last_index_of base slash base.length)
  base.take (base_end + 1).toNat ++ reference.drop (ref_start - 3 * back_count)

/-- `path.indexOf("/.") != -1`. -/
def contains_slash_dot : CodeUnits → Bool
  | a :: b :: path => (a == slash && b == dot) || contains_slash_dot (b :: path)
  | _ => false

section
variable (path : CodeUnits)

/-- `_mayContainDotSegments`. -/
def may_contain_dot_segments : Bool := path.head? == some dot || contains_slash_dot path

/-- One segment of the path: the output, and whether a slash is appended to it at the end. -/
def remove_dot_segments_step (state : List CodeUnits × Bool) (segment : CodeUnits) : List CodeUnits × Bool :=
  let (output, _) := state
  if segment = [dot, dot] then
    (if output ≠ [] then (if output.dropLast = [] then [[]] else output.dropLast) else output, true)
  else if segment = [dot] then
    (output, true)
  else
    (output ++ [segment], false)

/-- `_removeDotSegments`. -/
def remove_dot_segments : CodeUnits :=
  if may_contain_dot_segments path then
    let (output, append_slash) := (path.splitOn slash).foldl remove_dot_segments_step ([], false)
    join slash (if append_slash then output ++ [[]] else output)
  else
    path

/-- `remove_dot_segments` of RFC 3986, section 5.2.4. -/
def rfc_remove_dot_segments : CodeUnits := rewrite slash dot [] path

end

/-- The merge of RFC 3986, section 5.2.3, for a base path that is not empty: the reference is
appended to all but the last segment of the base. -/
def rfc_merge (base reference : CodeUnits) : CodeUnits := (base.reverse.dropWhile (· ≠ slash)).reverse ++ reference

section

lemma remove_dot_segments_step_eq (state : List CodeUnits × Bool) (segment : CodeUnits) :
    remove_dot_segments_step state segment = (enter dot state.1 segment, decide (IsDots dot segment)) := by
  simp only [remove_dot_segments_step, enter, IsDots]
  split_ifs <;> simp_all

lemma foldl_remove_dot_segments_step (segments : List CodeUnits) (state : List CodeUnits × Bool) :
    (segments.foldl remove_dot_segments_step state).1 = segments.foldl (enter dot) state.1 := by
  induction segments generalizing state with
  | nil => rfl
  | cons segment rest ih => rw [foldl_cons, foldl_cons, ih, remove_dot_segments_step_eq]

/-- The slash is appended after a dot segment at the end. -/
lemma normalize_eq {segments : List CodeUnits} (h : segments ≠ []) :
    (let (output, append_slash) := segments.foldl remove_dot_segments_step ([], false)
     if append_slash then output ++ [[]] else output) = dot_segments.normalize dot [] segments := by
  obtain ⟨init, last, rfl⟩ := (eq_nil_or_concat' segments).resolve_left h
  simp [dot_segments.normalize, remove_dot_segments_step_eq, foldl_remove_dot_segments_step]

lemma splitOn_cons (c : Nat) (path : CodeUnits) : ∃ first rest, path.splitOn slash = first :: rest ∧
    (c :: path).splitOn slash = if c = slash then [] :: first :: rest else (c :: first) :: rest := by
  obtain ⟨first, rest, hsplit⟩ := exists_cons_of_ne_nil (splitOn_ne_nil slash path)
  refine ⟨first, rest, hsplit, ?_⟩
  rw [splitOn] at hsplit ⊢
  rw [splitOnP_cons_eq_if_modifyHead, hsplit]
  exact if_congr beq_iff_eq rfl rfl

/-- A segment that starts with a dot is the first one or follows a slash. -/
lemma starts_with_dot {path first : CodeUnits} {rest : List CodeUnits} (hsplit : path.splitOn slash = first :: rest) :
    (first.head? = some dot → path.head? = some dot) ∧
      ∀ s ∈ rest, s.head? = some dot → contains_slash_dot path = true := by
  induction path generalizing first rest with
  | nil =>
    cases hsplit
    simp
  | cons c path ih =>
    obtain ⟨first', rest', hsplit', heq⟩ := splitOn_cons c path
    obtain ⟨hfst, hrest⟩ := ih hsplit'
    have hmem (h : contains_slash_dot path = true) : contains_slash_dot (c :: path) = true := by
      cases path with
      | nil => exact absurd h Bool.false_ne_true
      | cons d path => rw [contains_slash_dot, h, Bool.or_true]
    rw [heq] at hsplit
    by_cases hc : c = slash
    · rw [if_pos hc] at hsplit
      cases hsplit
      refine ⟨by simp, fun s hs hdot => ?_⟩
      obtain rfl | hs := mem_cons.mp hs
      · obtain ⟨path', hpath⟩ := head?_eq_some_iff.mp (hfst hdot)
        rw [hpath, hc]
        simp [contains_slash_dot]
      · exact hmem (hrest s hs hdot)
    · rw [if_neg hc] at hsplit
      cases hsplit
      exact ⟨fun h => by simpa using h, fun s hs hdot => hmem (hrest s hs hdot)⟩

/-- A path without such a sequence of characters has no dot segments. -/
lemma not_isDots_of_may_not_contain {path : CodeUnits} (h : may_contain_dot_segments path = false) :
    ∀ s ∈ path.splitOn slash, ¬IsDots dot s := by
  intro s hs hdots
  have hdot : s.head? = some dot := by obtain rfl | rfl := hdots <;> rfl
  obtain ⟨first, rest, hsplit⟩ := exists_cons_of_ne_nil (splitOn_ne_nil slash path)
  obtain ⟨hfst, hrest⟩ := starts_with_dot hsplit
  rw [may_contain_dot_segments, Bool.or_eq_false_iff, beq_eq_false_iff_ne] at h
  rw [hsplit] at hs
  obtain rfl | hs := mem_cons.mp hs
  · exact h.1 (hfst hdot)
  · exact Bool.false_ne_true (h.2.symm.trans (hrest s hs hdot))

lemma remove_dot_segments_eq_rfc (path : CodeUnits) : remove_dot_segments path = rfc_remove_dot_segments path := by
  have hsegs : path.splitOn slash ≠ [] := splitOn_ne_nil slash path
  rw [rfc_remove_dot_segments, rewrite_eq_join (by decide), remove_dot_segments]
  cases hdots : may_contain_dot_segments path with
  | true =>
    rw [if_pos rfl, ← normalize_eq hsegs]
  | false =>
    rw [if_neg Bool.false_ne_true, normalize_of_not_isDots (not_isDots_of_may_not_contain hdots), nil_append, join,
      intercalate_splitOn]

lemma last_index_of_eq {s : CodeUnits} {c a n : Nat} (han : a ≤ n) (h : ∀ i, a ≤ i → i < n → s[i]? ≠ some c) :
    last_index_of s c n = last_index_of s c a := by
  induction n with
  | zero => rw [Nat.le_zero.mp han]
  | succ n ih =>
    obtain rfl | hlt := Nat.eq_or_lt_of_le han
    · rfl
    · rw [last_index_of, if_neg (h n (by omega) (by omega)), ih (by omega) fun i ha hi => h i ha (by omega)]

variable {segment : CodeUnits} {dirs : List CodeUnits} {n : Nat}

/-- The last slash before a segment that is not the first one. -/
lemma last_index_of_segment (init tail : CodeUnits) (h : slash ∉ segment) :
    last_index_of (init ++ slash :: (segment ++ tail)) slash (init.length + 1 + segment.length) = init.length := by
  rw [last_index_of_eq (a := init.length + 1) (by omega)]
  · rw [last_index_of, if_pos (by simp)]
  · intro i hi hlt hget
    rw [getElem?_append_right (by omega), show i - init.length = i - init.length - 1 + 1 by omega,
      getElem?_cons_succ, getElem?_append_left (by omega)] at hget
    exact h (mem_of_getElem? hget)

lemma last_index_of_first_segment (tail : CodeUnits) (h : slash ∉ segment) :
    last_index_of (segment ++ tail) slash segment.length = -1 := by
  rw [last_index_of_eq (a := 0) (by omega)]
  · rfl
  · intro i hi hlt hget
    rw [getElem?_append_left hlt] at hget
    exact h (mem_of_getElem? hget)

/-- What the loop compares is the last segment of the rest of the base. -/
lemma isDots_iff (init tail : CodeUnits) (h : slash ∉ segment) :
    (((segment.length + 1 : Nat) : Int) = 2 ∨ ((segment.length + 1 : Nat) : Int) = 3) ∧
      (init ++ slash :: (segment ++ slash :: tail))[init.length + 1]? = some dot ∧
      (((segment.length + 1 : Nat) : Int) = 2 ∨ (init ++ slash :: (segment ++ slash :: tail))[init.length + 2]? = some dot) ↔
    IsDots dot segment := by
  match segment with
  | [] => simp [IsDots]
  | [a] => simp [IsDots]
  | [a, b] => simp [IsDots]
  | a :: b :: c :: segment =>
    simp only [length_cons, IsDots]
    refine iff_of_false (fun h => ?_) (by simp)
    omega

/-- The loop drops segments that are not dot segments, for as long as there are `../` left and the
segment is not the first one. -/
lemma drop_segments_spec {base tail : CodeUnits} (back_count : Nat) (hdirs : dirs ≠ [])
    (hslash : ∀ s ∈ dirs, slash ∉ s) (hbase : base = join slash dirs ++ slash :: tail) :
    ∃ kept dropped, dirs = kept ++ dropped ∧ kept ≠ [] ∧ (∀ s ∈ dropped, ¬IsDots dot s) ∧ dropped.length ≤ back_count ∧
      (dropped.length = back_count ∨ kept.length = 1 ∨ ∃ last ∈ kept.getLast?, IsDots dot last) ∧
      (∃ rest, base = join slash kept ++ slash :: rest) ∧ drop_segments base back_count (join slash dirs).length =
        (((join slash kept).length : Int), back_count - dropped.length) := by
  induction back_count generalizing dirs tail with
  | zero => exact ⟨dirs, [], by simp, hdirs, by simp, le_rfl, .inl rfl, ⟨tail, hbase⟩, rfl⟩
  | succ n ih =>
    obtain ⟨init, segment, rfl⟩ := (eq_nil_or_concat' dirs).resolve_left hdirs
    have hseg : slash ∉ segment := hslash segment (by simp)
    have hrest : ∃ rest, base = join slash (init ++ [segment]) ++ slash :: rest := ⟨tail, hbase⟩
    rw [drop_segments]
    by_cases hinit : init = []
    · -- The first segment stays.
      refine ⟨init ++ [segment], [], by simp, hdirs, by simp, by simp, .inr (.inl (by simp [hinit])), hrest, ?_⟩
      subst hinit
      rw [nil_append, join_singleton] at hbase ⊢
      rw [Int.toNat_natCast, hbase, last_index_of_first_segment _ hseg]
      simp
    have hlen : (join slash (init ++ [segment])).length = (join slash init).length + 1 + segment.length := by
      rw [join_concat hinit, length_append, length_cons]
      omega
    rw [join_concat hinit, append_assoc, cons_append] at hbase
    have hidx : last_index_of base slash ((join slash init).length + 1 + segment.length) = (join slash init).length := by
      rw [hbase, last_index_of_segment _ _ hseg]
    have hdelta : ((((join slash init).length + 1 + segment.length : Nat) : Int) - (join slash init).length) =
        (segment.length + 1 : Nat) := by omega
    have hdots := isDots_iff (join slash init) tail hseg
    rw [← hbase] at hdots
    rw [hlen, if_pos (by omega), Int.toNat_natCast, hidx]
    simp only [hdelta, show ((join slash init).length + 1 : Int).toNat = (join slash init).length + 1 by omega,
      show ((join slash init).length + 2 : Int).toNat = (join slash init).length + 2 by omega, hdots]
    by_cases hdot : IsDots dot segment
    · refine ⟨init ++ [segment], [], by simp, hdirs, by simp, by simp, .inr (.inr ⟨segment, by simp, hdot⟩), hrest, ?_⟩
      rw [if_pos hdot, hlen]
      rfl
    obtain ⟨kept, dropped, hsplit, hkept, hdrop, hle, hstop, hkeptRest, hrun⟩ :=
      ih hinit (fun s hs => hslash s (by simp [hs])) hbase
    refine ⟨kept, dropped ++ [segment], by rw [hsplit, append_assoc], hkept, ?_, by simpa using hle, ?_, hkeptRest, ?_⟩
    · intro s hs
      obtain hs | hs := mem_append.mp hs
      · exact hdrop s hs
      · rwa [mem_singleton.mp hs]
    · simpa using hstop
    · rw [if_neg hdot, hrun]
      simp

lemma splitOn_join_append {segments : List CodeUnits} (hsegs : segments ≠ []) (hslash : ∀ s ∈ segments, slash ∉ s)
    (path : CodeUnits) : (join slash segments ++ slash :: path).splitOn slash = segments ++ path.splitOn slash := by
  rw [splitOn, splitOnP_append_cons (p := fun c => c == slash) _ _ (beq_self_eq_true slash)]
  congr 1
  exact splitOn_intercalate slash hslash hsegs

/-- Each leading `../` is a segment. -/
lemma splitOn_reference {reference : CodeUnits} (h : n ≤ leading_back_count reference) :
    reference.splitOn slash = replicate n [dot, dot] ++ (reference.drop (3 * n)).splitOn slash := by
  induction n generalizing reference with
  | zero => rfl
  | succ n ih =>
    unfold leading_back_count at h
    split at h
    · rename_i reference
      have hsplit : (dot :: dot :: slash :: reference).splitOn slash = [dot, dot] :: reference.splitOn slash := by
        have := splitOn_join_append (cons_ne_nil [dot, dot] []) (by simp) reference
        simpa [join] using this
      rw [hsplit, ih (by omega), replicate_succ, show 3 * (n + 1) = 3 * n + 3 by ring]
      rfl
    · omega

lemma climbs_back (n : Nat) (segments : List CodeUnits) :
    climbs dot 0 (replicate n [dot, dot] ++ segments) = climbs dot 0 segments := by
  induction n with
  | zero => rfl
  | succ n ih => rw [replicate_succ, cons_append, climbs, ih]; simp

variable (reference : CodeUnits)

/-- A base without a slash is replaced by the reference. -/
lemma merge_paths_of_no_slash {base : CodeUnits} (h : slash ∉ base) :
    merge_paths base reference = reference ∧ rfc_merge base reference = reference := by
  have hidx : last_index_of base slash base.length = -1 := by
    simpa using last_index_of_first_segment [] h
  have hdrop (n : Nat) : drop_segments base n (-1) = (-1, n) := by cases n <;> rfl
  constructor
  · simp [merge_paths, hidx, hdrop]
  · have hall := dropWhile_segment (show slash ∉ base.reverse by simpa using h) (show Ends slash [] from .inl rfl)
    rw [append_nil] at hall
    rw [rfc_merge, hall, reverse_nil, nil_append]

/-- The segments of the merged paths: some segments of the base and as many segments `..` of the
reference have been dropped. -/
lemma merge_paths_spec {base last : CodeUnits} (hsplit : base.splitOn slash = dirs ++ [last]) (hdirs : dirs ≠ []) :
    ∃ kept dropped, dirs = kept ++ dropped ∧ kept ≠ [] ∧ (∀ s ∈ dropped, ¬IsDots dot s) ∧
      dropped.length ≤ leading_back_count reference ∧
      (dropped.length = leading_back_count reference ∨ kept.length = 1 ∨ ∃ last ∈ kept.getLast?, IsDots dot last) ∧
      (merge_paths base reference).splitOn slash = kept ++ (reference.drop (3 * dropped.length)).splitOn slash ∧
      (rfc_merge base reference).splitOn slash = kept ++ (dropped ++ replicate dropped.length [dot, dot]) ++
          (reference.drop (3 * dropped.length)).splitOn slash := by
  have hslash : ∀ s ∈ base.splitOn slash, slash ∉ s := slash_notMem_splitOn base
  rw [hsplit] at hslash
  have hdirsSlash : ∀ s ∈ dirs, slash ∉ s := fun s hs => hslash s (by simp [hs])
  have hlast : slash ∉ last := hslash last (by simp)
  have hbase : base = join slash dirs ++ slash :: last := by
    rw [← join_concat hdirs, ← hsplit, join, intercalate_splitOn]
  obtain ⟨kept, dropped, hsegs, hkept, hdots, hle, hstop, ⟨rest, hrest⟩, hrun⟩ :=
    drop_segments_spec (leading_back_count reference) hdirs hdirsSlash hbase
  refine ⟨kept, dropped, hsegs, hkept, hdots, hle, hstop, ?_, ?_⟩
  · have hidx : last_index_of base slash base.length = (join slash dirs).length := by
      have := last_index_of_segment (join slash dirs) [] hlast
      rw [append_nil, ← hbase] at this
      rw [← this]
      congr 1
      rw [hbase, length_append, length_cons]
      omega
    have hmerge : merge_paths base reference = join slash kept ++ slash :: reference.drop (3 * dropped.length) := by
      simp only [merge_paths, hidx, hrun]
      rw [show ((join slash kept).length + 1 : Int).toNat = (join slash kept).length + 1 by omega,
        show 3 * leading_back_count reference - 3 * (leading_back_count reference - dropped.length) = 3 * dropped.length by
          omega, hrest, take_length_add_append]
      simp
    rw [hmerge, splitOn_join_append hkept fun s hs => hdirsSlash s (by simp [hsegs, hs])]
  · have hmerge : rfc_merge base reference = join slash dirs ++ slash :: reference := by
      rw [rfc_merge, hbase, reverse_append, reverse_cons, append_assoc, singleton_append, dropWhile_segment (by simpa
        using hlast) (.inr ⟨_, rfl⟩), reverse_cons, reverse_reverse, append_assoc, singleton_append]
    rw [hmerge, splitOn_join_append hdirs hdirsSlash, splitOn_reference hle, hsegs]
    simp

variable (base reference : CodeUnits)

/-- The base is relative and starts with dot segments, and the reference leads back over all its
other directories. Then the reference must not climb out of its own first segment. -/
def LosesSlash : Prop :=
  (∃ dots dirs last, base.splitOn slash = dots ++ dirs ++ [last] ∧ dots ≠ [] ∧ dirs ≠ [] ∧ (∀ s ∈ dots, IsDots dot s) ∧
    (∀ s ∈ dirs, ¬IsDots dot s) ∧ dirs.length ≤ leading_back_count reference) ∧
  climbs dot 0 (reference.splitOn slash) = false

/-- The segments that are dropped are all but the dot segments that the base starts with. -/
lemma dropped_unique {dots dirs kept dropped : List CodeUnits} (hsplit : kept ++ dropped = dots ++ dirs)
    (hdots : ∀ s ∈ dots, IsDots dot s) (hdirs : ∀ s ∈ dirs, ¬IsDots dot s) (hne : dots ≠ [])
    (hdrop : ∀ s ∈ dropped, ¬IsDots dot s) (hle : dirs.length ≤ n)
    (hstop : dropped.length = n ∨ kept.length = 1 ∨ ∃ last ∈ kept.getLast?, IsDots dot last) : kept = dots := by
  obtain ⟨more, hkept, hdirsEq⟩ | ⟨more, hdotsEq, hdroppedEq⟩ := append_eq_append_iff.mp hsplit
  · -- Some of the dot segments would be dropped.
    cases more with
    | nil => rw [hkept, append_nil]
    | cons s more =>
      exact absurd (hdots s (by rw [hkept]; simp)) (hdrop s (by rw [hdirsEq]; simp))
  -- The loop would have stopped too early.
  obtain rfl | ⟨init, s, rfl⟩ := eq_nil_or_concat' more
  · rw [hdotsEq, append_nil]
  have hlen := length_pos_iff.mpr hne
  have hsum := congrArg length hdotsEq
  have hsum' := congrArg length hdroppedEq
  simp only [length_append, length_singleton] at hsum hsum'
  obtain h | h | ⟨last, hlast, hlastDots⟩ := hstop
  · omega
  · omega
  · rw [hdotsEq, ← append_assoc, getLast?_concat, Option.mem_some_iff] at hlast
    exact absurd (hlast ▸ hlastDots) (hdirs s (by rw [hdroppedEq]; simp))

lemma remove_dot_segments_merge_paths_iff :
    remove_dot_segments (merge_paths base reference) = rfc_remove_dot_segments (rfc_merge base reference) ↔
      ¬LosesSlash base reference := by
  obtain ⟨dirs, last, hsplit⟩ := (eq_nil_or_concat' (base.splitOn slash)).resolve_left (splitOn_ne_nil slash base)
  rw [remove_dot_segments_eq_rfc]
  by_cases hdirs : dirs = []
  · rw [hdirs, nil_append] at hsplit
    have hjoin : join slash [last] = last := join_singleton
    have hlast : base = last := by rw [← hjoin, ← hsplit, join, intercalate_splitOn]
    have hbase : slash ∉ base := slash_notMem_splitOn base base (by rw [hsplit, hlast]; simp)
    obtain ⟨hmerge, hrfc⟩ := merge_paths_of_no_slash reference hbase
    rw [hmerge, hrfc]
    refine iff_of_true rfl ?_
    rintro ⟨⟨dots, rest, last', hsplit', hdots, -⟩, -⟩
    have hlen := congrArg length (hsplit.symm.trans hsplit')
    have hpos := length_pos_iff.mpr hdots
    simp only [length_append, length_singleton] at hlen
    omega
  obtain ⟨kept, dropped, hsegs, hkept, hdrop, hle, hstop, hmerge, hrfc⟩ := merge_paths_spec reference hsplit hdirs
  have hrest : (reference.drop (3 * dropped.length)).splitOn slash ≠ [] := splitOn_ne_nil slash _
  have hclimbs : climbs dot 0 (reference.splitOn slash) =
      climbs dot 0 ((reference.drop (3 * dropped.length)).splitOn slash) := by
    rw [splitOn_reference hle, climbs_back]
  rw [rfc_remove_dot_segments, rfc_remove_dot_segments, rewrite_eq_join (by decide), rewrite_eq_join (by decide), hmerge,
    hrfc, normalize_append hrest, normalize_append hrest, foldl_append, foldl_enter_back hdrop]
  by_cases hempty : kept.foldl (enter dot) [] = [] ∧ dropped ≠ []
  · rw [if_pos hempty, hempty.1, join_normalize_eq_iff hrest, ← hclimbs, LosesSlash, not_and, Bool.not_eq_false]
    refine ⟨fun h _ => h, fun h => h ⟨kept, dropped, last, ?_⟩⟩
    exact ⟨by rw [hsplit, hsegs], hkept, hempty.2, foldl_enter_eq_nil_iff.mp hempty.1, hdrop, hle⟩
  rw [if_neg hempty]
  refine iff_of_true rfl ?_
  rintro ⟨⟨dots, rest, last', hsplit', hdots, hrestNonempty, hdotsAll, hrestAll, hrestLe⟩, -⟩
  rw [hsplit] at hsplit'
  obtain ⟨hdirsEq, -⟩ := append_inj' hsplit' rfl
  have hunique := dropped_unique (hsegs.symm.trans hdirsEq) hdotsAll hrestAll hdots hdrop hrestLe hstop
  refine hempty ⟨foldl_enter_eq_nil_iff.mpr (hunique ▸ hdotsAll), fun hnil => hrestNonempty ?_⟩
  rw [hsegs, hnil, append_nil, hunique] at hdirsEq
  simpa using hdirsEq

end

/-- The resolution of a relative path. -/
def resolve_path (base reference : CodeUnits) : CodeUnits := remove_dot_segments (merge_paths base reference)

/-- The resolution of a relative path by RFC 3986. -/
def rfc_resolve_path (base reference : CodeUnits) : CodeUnits := rfc_remove_dot_segments (rfc_merge base reference)

/-- Dot segments are removed as RFC 3986 says. Segments of the base are dropped early, which shows in
one case only. Both functions are idempotent like those of the RFC. -/
theorem resolve_path_eq_rfc_iff (base reference : CodeUnits) :
    (∀ path, remove_dot_segments path = rfc_remove_dot_segments path) ∧
    (∀ path, remove_dot_segments (remove_dot_segments path) = remove_dot_segments path) ∧
    (resolve_path base reference = rfc_resolve_path base reference ↔ ¬LosesSlash base reference) ∧
    (¬LosesSlash base reference → ¬LosesSlash base (rfc_resolve_path base reference) →
      rfc_resolve_path base (rfc_resolve_path base reference) = rfc_resolve_path base reference →
      resolve_path base (resolve_path base reference) = resolve_path base reference) := by
  refine ⟨remove_dot_segments_eq_rfc, fun path => ?_, remove_dot_segments_merge_paths_iff base reference, ?_⟩
  · simp only [remove_dot_segments_eq_rfc, rfc_remove_dot_segments]
    exact rewrite_rewrite (by decide) path
  · intro h h' hidem
    have heq : resolve_path base reference = rfc_resolve_path base reference :=
      (remove_dot_segments_merge_paths_iff base reference).mpr h
    have heq' : resolve_path base (rfc_resolve_path base reference) =
        rfc_resolve_path base (rfc_resolve_path base reference) :=
      (remove_dot_segments_merge_paths_iff base (rfc_resolve_path base reference)).mpr h'
    rw [heq, heq', hidem]

/-- `./a/./c` resolved against `b`, twice. -/
theorem resolve_path_eq_rfc_iff_sibling : resolve_path [98] (resolve_path [98] [46, 47, 97, 47, 46, 47, 99]) =
    resolve_path [98] [46, 47, 97, 47, 46, 47, 99] := by
  obtain ⟨hrfc, -, hiff, hidem⟩ := resolve_path_eq_rfc_iff [98] [46, 47, 97, 47, 46, 47, 99]
  have heq : rfc_resolve_path [98] [46, 47, 97, 47, 46, 47, 99] = [97, 47, 99] := by
    rw [rfc_resolve_path, ← hrfc]
    decide
  have heq' : rfc_resolve_path [98] [97, 47, 99] = [97, 47, 99] := by
    rw [rfc_resolve_path, ← hrfc]
    decide
  refine hidem (hiff.mp (by rw [heq]; decide)) ?_ (by rw [heq, heq'])
  rw [heq, ← (resolve_path_eq_rfc_iff [98] [97, 47, 99]).2.2.1, heq']
  decide

/-- `../c` resolved against `./a/b`. -/
theorem resolve_path_loses_slash : resolve_path [46, 47, 97, 47, 98] [46, 46, 47, 99] = [99] ∧
      rfc_resolve_path [46, 47, 97, 47, 98] [46, 46, 47, 99] = [47, 99] := by
  refine ⟨by decide, ?_⟩
  rw [rfc_resolve_path, ← remove_dot_segments_eq_rfc]
  decide

end dart.uri
