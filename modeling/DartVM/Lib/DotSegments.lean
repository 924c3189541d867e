import Mathlib.Data.List.Basic

namespace dart.dot_segments
open List
variable {α : Type} [DecidableEq α] (slash dot : α)

/-- A path without its last segment and the slash before that. -/
def removeLast (path : List α) : List α := (path.reverse.dropWhile (· ≠ slash)).tail.reverse

/-- The path with its first segment moved to the output, with the slash before the segment if there
is one. -/
def moveFirst (output : List α) : List α → List α × List α
  | [] => (output, [])
  | c :: input => (output ++ c :: input.takeWhile (· ≠ slash), input.dropWhile (· ≠ slash))

/-- One step of `remove_dot_segments` of RFC 3986, section 5.2.4, on the output and the input buffer. -/
def rewriteStep (output input : List α) : List α × List α :=
  if [dot, dot, slash] <+: input then (output, input.drop 3)
  else if [dot, slash] <+: input then (output, input.drop 2)
  else if [slash, dot, slash] <+: input then (output, input.drop 2)
  else if input = [slash, dot] then (output, [slash])
  else if [slash, dot, dot, slash] <+: input then (removeLast slash output, input.drop 3)
  else if input = [slash, dot, dot] then (removeLast slash output, [slash])
  else if input = [dot] ∨ input = [dot, dot] then (output, [])
  else moveFirst slash output input

lemma length_rewriteStep_lt (output : List α) {input : List α} (h : input ≠ []) :
    (rewriteStep slash dot output input).2.length < input.length := by
  have hdrop {l : List α} {n : Nat} (hn : 0 < n) (hl : l <+: input) : (input.drop n).length < input.length := by
    have := length_pos_of_ne_nil h
    rw [length_drop]
    omega
  unfold rewriteStep
  split_ifs with h1 h2 h3 h4 h5 h6 h7
  · exact hdrop (by decide) h1
  · exact hdrop (by decide) h2
  · exact hdrop (by decide) h3
  · simp [h4]
  · exact hdrop (by decide) h5
  · simp [h6]
  · exact length_pos_of_ne_nil h
  · cases input with
    | nil => exact absurd rfl h
    | cons c input => exact Nat.lt_succ_of_le (dropWhile_suffix _).length_le

/-- `remove_dot_segments` of RFC 3986, section 5.2.4. -/
def rewrite (output input : List α) : List α :=
  if h : input = [] then output
  else
    have := length_rewriteStep_lt slash dot output h
    rewrite (rewriteStep slash dot output input).1 (rewriteStep slash dot output input).2
termination_by input.length

/-- The segments `.` and `..`. -/
def IsDots (segment : List α) : Prop := segment = [dot] ∨ segment = [dot, dot]

instance : DecidablePred (IsDots dot) := fun _ => inferInstanceAs (Decidable (_ ∨ _))

/-- The segments of the output after one more segment of the input. A path whose only segment has
been removed stays absolute. -/
def enter (output : List (List α)) (segment : List α) : List (List α) :=
  if segment = [dot, dot] then
    if output = [] then []
    else if output.dropLast = [] then [[]]
    else output.dropLast
  else if segment = [dot] then output
  else output ++ [segment]

/-- The path with these segments. -/
abbrev join (segments : List (List α)) : List α := [slash].intercalate segments

/-- The segments of a path without dot segments: a slash follows when the last one was a dot segment. -/
def normalize (output segments : List (List α)) : List (List α) :=
  if ∃ last ∈ segments.getLast?, IsDots dot last then segments.foldl (enter dot) output ++ [[]]
  else segments.foldl (enter dot) output

/-- Some segment `..` removes the only segment of an output, which has `depth` segments at first. -/
def climbs (depth : Nat) : List (List α) → Bool
  | [] => false
  | segment :: segments =>
    if segment = [dot, dot] then depth = 1 || climbs (depth - 1) segments
    else if segment = [dot] then climbs depth segments
    else climbs (depth + 1) segments

/-- The rest of a path after a segment. -/
def Ends (rest : List α) : Prop := rest = [] ∨ ∃ tail, rest = slash :: tail

section
variable {slash} {segment rest : List α}

variable (hseg : slash ∉ segment) (hrest : Ends slash rest)
include hseg hrest

lemma takeWhile_segment : (segment ++ rest).takeWhile (· ≠ slash) = segment := by
  have hall : ∀ a ∈ segment, decide (a ≠ slash) = true := fun a ha => decide_eq_true fun h => hseg (h ▸ ha)
  rw [takeWhile_append_of_pos hall]
  obtain rfl | ⟨tail, rfl⟩ := hrest <;> simp

lemma dropWhile_segment : (segment ++ rest).dropWhile (· ≠ slash) = rest := by
  have hall : ∀ a ∈ segment, decide (a ≠ slash) = true := fun a ha => decide_eq_true fun h => hseg (h ▸ ha)
  rw [dropWhile_append_of_pos hall]
  obtain rfl | ⟨tail, rfl⟩ := hrest <;> simp

/-- The segment that a path starts with. -/
lemma segment_unique {segment' rest' : List α} (hseg' : slash ∉ segment') (hrest' : Ends slash rest')
    (h : segment ++ rest = segment' ++ rest') : segment = segment' := by
  rw [← takeWhile_segment hseg hrest, h, takeWhile_segment hseg' hrest']

lemma prefix_unique {l : List α} (hl : slash ∉ l) (h : l ++ [slash] <+: segment ++ rest) : segment = l := by
  obtain ⟨tail, htail⟩ := h
  rw [append_assoc] at htail
  exact segment_unique hseg hrest hl (.inr ⟨tail, rfl⟩) htail.symm

end

section
variable {slash dot} (hne : dot ≠ slash) {output segment rest : List α}
include hne

lemma rewriteStep_dots (hdots : IsDots dot segment) :
    rewriteStep slash dot output (segment ++ slash :: rest) = (output, rest) := by
  obtain rfl | rfl := hdots <;> simp [rewriteStep, hne, cons_prefix_cons]

lemma rewriteStep_only_dots (hdots : IsDots dot segment) : rewriteStep slash dot output segment = (output, []) := by
  obtain rfl | rfl := hdots <;> simp [rewriteStep, hne, hne.symm, cons_prefix_cons]

lemma rewriteStep_dot : rewriteStep slash dot output (slash :: dot :: slash :: rest) = (output, slash :: rest) := by
  simp [rewriteStep, hne, hne.symm, cons_prefix_cons]

lemma rewriteStep_last_dot : rewriteStep slash dot output [slash, dot] = (output, [slash]) := by
  simp [rewriteStep, hne, hne.symm, cons_prefix_cons]

lemma rewriteStep_dotdot :
    rewriteStep slash dot output (slash :: dot :: dot :: slash :: rest) = (removeLast slash output, slash :: rest) := by
  simp [rewriteStep, hne, hne.symm, cons_prefix_cons]

lemma rewriteStep_last_dotdot :
    rewriteStep slash dot output [slash, dot, dot] = (removeLast slash output, [slash]) := by
  simp [rewriteStep, hne, hne.symm, cons_prefix_cons]

lemma rewriteStep_segment (hseg : slash ∉ segment) (hdots : ¬IsDots dot segment) (hrest : Ends slash rest) :
    rewriteStep slash dot output (slash :: (segment ++ rest)) = (output ++ slash :: segment, rest) := by
  have hdot : slash ∉ [dot] := by simpa using hne.symm
  have hdotdot : slash ∉ [dot, dot] := by simpa using hne.symm
  have hnil : Ends slash [] := .inl rfl
  unfold rewriteStep
  rw [if_neg, if_neg, if_neg, if_neg, if_neg, if_neg, moveFirst, takeWhile_segment hseg hrest,
    dropWhile_segment hseg hrest]
  · simp [hne.symm]
  · exact fun h => hdots (.inr (segment_unique hseg hrest hdotdot hnil (cons_injective h)))
  · exact fun h => hdots (.inr (prefix_unique hseg hrest hdotdot (cons_prefix_cons.mp h).2))
  · exact fun h => hdots (.inl (segment_unique hseg hrest hdot hnil (cons_injective h)))
  · exact fun h => hdots (.inl (prefix_unique hseg hrest hdot (cons_prefix_cons.mp h).2))
  · simp [hne]
  · simp [hne]

lemma rewriteStep_first_segment (hseg : slash ∉ segment) (hdots : ¬IsDots dot segment) (hnil : segment ≠ [])
    (hrest : Ends slash rest) : rewriteStep slash dot output (segment ++ rest) = (output ++ segment, rest) := by
  have hdot : slash ∉ [dot] := by simpa using hne.symm
  have hdotdot : slash ∉ [dot, dot] := by simpa using hne.symm
  have hend : Ends slash [] := .inl rfl
  obtain ⟨c, segment, rfl⟩ := exists_cons_of_ne_nil hnil
  have hc : c ≠ slash := fun h => hseg (h ▸ (.head _))
  have htail : slash ∉ segment := fun h => hseg (.tail _ h)
  unfold rewriteStep
  rw [if_neg, if_neg, if_neg, if_neg, if_neg, if_neg, if_neg, cons_append, moveFirst,
    takeWhile_segment htail hrest, dropWhile_segment htail hrest]
  · rintro (h | h)
    · exact hdots (.inl (segment_unique hseg hrest hdot hend h))
    · exact hdots (.inr (segment_unique hseg hrest hdotdot hend h))
  · simp [hc]
  · simp [hc.symm]
  · simp [hc]
  · simp [hc.symm]
  · exact fun h => hdots (.inl (prefix_unique hseg hrest hdot h))
  · exact fun h => hdots (.inr (prefix_unique hseg hrest hdotdot h))

end

section
variable {slash dot} {output segments : List (List α)} {segment : List α}

lemma normalize_singleton : normalize dot output [segment] =
    if IsDots dot segment then enter dot output segment ++ [[]] else enter dot output segment := by
  simp [normalize]

lemma normalize_cons (h : segments ≠ []) :
    normalize dot output (segment :: segments) = normalize dot (enter dot output segment) segments := by
  rw [normalize, normalize, foldl_cons, getLast?_cons_of_ne_nil h]

omit [DecidableEq α] in
lemma join_cons_of_ne_nil (h : segments ≠ []) :
    join slash (segment :: segments) = segment ++ slash :: join slash segments := by
  obtain ⟨s, rest, rfl⟩ := exists_cons_of_ne_nil h
  simp [join, intercalate_cons_cons]

omit [DecidableEq α] in
lemma join_singleton : join slash [segment] = segment := by simp [join]

section
variable (h : output ≠ [])
include h

omit [DecidableEq α] in
lemma join_concat : join slash (output ++ [segment]) = join slash output ++ slash :: segment := by
  induction output with
  | nil => exact absurd rfl h
  | cons s rest ih =>
    cases rest with
    | nil => simp [join, intercalate_cons_cons]
    | cons t rest =>
      have hrest : t :: rest ≠ [] := cons_ne_nil _ _
      rw [cons_append, join_cons_of_ne_nil (by simp), ih hrest, join_cons_of_ne_nil hrest, append_assoc, cons_append]

lemma removeLast_join (hslash : ∀ s ∈ output, slash ∉ s) :
    removeLast slash (join slash output) = join slash output.dropLast := by
  obtain ⟨init, segment, rfl⟩ := eq_nil_or_concat' output |>.resolve_left h
  have hseg : slash ∉ segment.reverse := by simpa using hslash segment (by simp)
  rw [dropLast_concat, removeLast]
  by_cases hinit : init = []
  · rw [hinit, nil_append, join_singleton, ← append_nil segment.reverse, dropWhile_segment hseg (.inl rfl)]
    rfl
  · rw [join_concat hinit, reverse_append, reverse_cons, append_assoc, singleton_append,
      dropWhile_segment hseg (.inr ⟨_, rfl⟩), tail_cons, reverse_reverse]

lemma join_enter_dotdot (hslash : ∀ s ∈ output, slash ∉ s) :
    join slash (enter dot output [dot, dot]) = removeLast slash (join slash output) := by
  rw [removeLast_join h hslash, enter, if_pos rfl, if_neg h]
  split_ifs with hlast
  · rw [hlast]
    simp [join]
  · rfl

lemma enter_ne_nil : enter dot output segment ≠ [] := by
  unfold enter
  split_ifs <;> simp_all

end

lemma slash_notMem_enter (hout : ∀ s ∈ output, slash ∉ s) (hseg : slash ∉ segment) :
    ∀ s ∈ enter dot output segment, slash ∉ s := by
  intro s hs
  unfold enter at hs
  split_ifs at hs with h1 h2 h3 h4
  · simp at hs
  · simp [mem_singleton.mp hs]
  · exact hout s ((dropLast_sublist _).subset hs)
  · exact hout s hs
  · obtain hs | hs := mem_append.mp hs
    · exact hout s hs
    · rwa [mem_singleton.mp hs]

lemma rewrite_nil (path : List α) : rewrite slash dot path [] = path := by
  rw [rewrite, dif_pos rfl]

lemma rewrite_of_step {out input out' input' : List α} (hinput : input ≠ [])
    (h : rewriteStep slash dot out input = (out', input')) : rewrite slash dot out input = rewrite slash dot out' input' := by
  rw [rewrite, dif_neg hinput]
  show rewrite slash dot (rewriteStep slash dot out input).1 (rewriteStep slash dot out input).2 = _
  rw [h]

variable (hne : dot ≠ slash)
include hne

lemma rewrite_slash (path : List α) : rewrite slash dot path [slash] = path ++ [slash] := by
  have hstep : rewriteStep slash dot path (slash :: ([] ++ [])) = (path ++ [slash], []) :=
    rewriteStep_segment hne not_mem_nil (by simp [IsDots]) (.inl rfl)
  rw [append_nil] at hstep
  rw [rewrite_of_step (cons_ne_nil _ _) hstep, rewrite_nil]

/-- The input from a slash on, when the output has segments. -/
lemma rewrite_absolute (hsegs : segments ≠ []) (hslash : ∀ s ∈ segments, slash ∉ s) (houtput : output ≠ [])
    (hout : ∀ s ∈ output, slash ∉ s) : rewrite slash dot (join slash output) (slash :: join slash segments) =
      join slash (normalize dot output segments) := by
  induction segments generalizing output with
  | nil => exact absurd rfl hsegs
  | cons segment rest ih =>
    have hseg : slash ∉ segment := hslash segment (.head _)
    have hentered : ∀ s ∈ enter dot output segment, slash ∉ s := slash_notMem_enter hout hseg
    have hnonempty : enter dot output segment ≠ [] := enter_ne_nil houtput
    have hdotdot : join slash (enter dot output [dot, dot]) = removeLast slash (join slash output) :=
      join_enter_dotdot houtput hout
    have hother (h : ¬IsDots dot segment) : enter dot output segment = output ++ [segment] := by
      rw [enter, if_neg (fun h' => h (.inr h')), if_neg (fun h' => h (.inl h'))]
    have hdot : enter dot output [dot] = output := by simp [enter]
    by_cases hrest : rest = []
    · subst hrest
      rw [normalize_singleton, join_singleton]
      by_cases hdots : IsDots dot segment
      · rw [if_pos hdots, join_concat hnonempty]
        obtain rfl | rfl := hdots
        · rw [rewrite_of_step (cons_ne_nil _ _) (rewriteStep_last_dot hne), rewrite_slash hne, hdot]
        · rw [rewrite_of_step (cons_ne_nil _ _) (rewriteStep_last_dotdot hne), rewrite_slash hne, hdotdot]
      have hstep : rewriteStep slash dot (join slash output) (slash :: (segment ++ [])) =
          (join slash output ++ slash :: segment, []) := rewriteStep_segment hne hseg hdots (.inl rfl)
      rw [append_nil] at hstep
      rw [if_neg hdots, rewrite_of_step (cons_ne_nil _ _) hstep, rewrite_nil, hother hdots, join_concat houtput]
    · rw [normalize_cons hrest, join_cons_of_ne_nil hrest,
        ← ih hrest (fun s hs => hslash s (.tail _ hs)) hnonempty hentered]
      by_cases hdots : IsDots dot segment
      · obtain rfl | rfl := hdots
        · rw [hdot]
          exact rewrite_of_step (cons_ne_nil _ _) (rewriteStep_dot hne)
        · rw [hdotdot]
          exact rewrite_of_step (cons_ne_nil _ _) (rewriteStep_dotdot hne)
      · rw [hother hdots, join_concat houtput]
        exact rewrite_of_step (cons_ne_nil _ _) (rewriteStep_segment hne hseg hdots (.inr ⟨_, rfl⟩))

/-- The rewriting of the whole path works on its segments one by one. -/
lemma rewrite_join (hsegs : segments ≠ []) (hslash : ∀ s ∈ segments, slash ∉ s) :
    rewrite slash dot [] (join slash segments) = join slash (normalize dot [] segments) := by
  induction segments with
  | nil => exact absurd rfl hsegs
  | cons segment rest ih =>
    have hseg : slash ∉ segment := hslash segment (.head _)
    have htail : ∀ s ∈ rest, slash ∉ s := fun s hs => hslash s (.tail _ hs)
    by_cases hdots : IsDots dot segment
    · have hnil : segment ≠ [] := by obtain rfl | rfl := hdots <;> simp
      have henter : enter dot [] segment = [] := by obtain rfl | rfl := hdots <;> simp [enter]
      by_cases hrest : rest = []
      · subst hrest
        rw [normalize_singleton, join_singleton, if_pos hdots, henter,
          rewrite_of_step hnil (rewriteStep_only_dots hne hdots), rewrite_nil]
        simp [join]
      · rw [normalize_cons hrest, join_cons_of_ne_nil hrest, henter, ← ih hrest htail]
        exact rewrite_of_step (by simp [hnil]) (rewriteStep_dots hne hdots)
    have henter : enter dot [] segment = [segment] := by
      rw [enter, if_neg (fun h' => hdots (.inr h')), if_neg (fun h' => hdots (.inl h')), nil_append]
    have hstart (tail : List α) (htail : Ends slash tail) :
        rewrite slash dot [] (segment ++ tail) = rewrite slash dot segment tail := by
      by_cases hnil : segment = []
      · rw [hnil, nil_append]
      · exact rewrite_of_step (by simp [hnil]) (rewriteStep_first_segment hne hseg hdots hnil htail)
    by_cases hrest : rest = []
    · have hend := hstart [] (.inl rfl)
      rw [append_nil, rewrite_nil] at hend
      rw [hrest, normalize_singleton, join_singleton, if_neg hdots, henter, hend, join_singleton]
    have habsolute := rewrite_absolute hne hrest htail (cons_ne_nil segment []) (by simpa using hseg)
    rw [join_singleton] at habsolute
    rw [normalize_cons hrest, join_cons_of_ne_nil hrest, henter, hstart _ (.inr ⟨_, rfl⟩), habsolute]

end

variable {slash dot} {output segments : List (List α)}

lemma enter_of_not_isDots {segment : List α} (h : ¬IsDots dot segment) :
    enter dot output segment = output ++ [segment] := by
  rw [enter, if_neg (fun h' => h (.inr h')), if_neg (fun h' => h (.inl h'))]

lemma foldl_enter (h : ∀ s ∈ segments, ¬IsDots dot s) : segments.foldl (enter dot) output = output ++ segments := by
  induction segments generalizing output with
  | nil => rw [foldl_nil, append_nil]
  | cons segment rest ih =>
    rw [foldl_cons, enter_of_not_isDots (h segment (.head _)),
      ih fun s hs => h s (.tail _ hs), append_assoc, singleton_append]

lemma foldl_enter_dotdot (h : output ≠ []) (n : Nat) : (replicate n [dot, dot]).foldl (enter dot) output =
      if n < output.length then output.take (output.length - n) else [[]] := by
  induction n generalizing output with
  | zero => simp [length_pos_iff.mpr h]
  | succ n ih =>
    have hpos := length_pos_iff.mpr h
    rw [replicate_succ, foldl_cons, enter, if_pos rfl, if_neg h]
    by_cases hlast : output.dropLast = []
    · have hlen : output.length = 1 := by
        have := congrArg length hlast
        rw [length_dropLast, length_nil] at this
        omega
      rw [if_pos hlast, ih (cons_ne_nil _ _), if_neg (show ¬n + 1 < output.length by omega)]
      cases n <;> rfl
    rw [if_neg hlast, ih hlast, length_dropLast]
    by_cases hn : n + 1 < output.length
    · rw [if_pos hn, if_pos (by omega), dropLast_eq_take, take_take]
      congr 1
      omega
    · rw [if_neg hn, if_neg (by omega)]

/-- As many segments `..` as there are segments before them lead back, but not to an empty output. -/
lemma foldl_enter_back (h : ∀ s ∈ segments, ¬IsDots dot s) :
    (segments ++ replicate segments.length [dot, dot]).foldl (enter dot) output =
      if output = [] ∧ segments ≠ [] then [[]] else output := by
  rw [foldl_append, foldl_enter h]
  by_cases hsegs : segments = []
  · simp [hsegs]
  have hlen : (output ++ segments).length = output.length + segments.length := length_append
  rw [foldl_enter_dotdot (by simp [hsegs]), hlen]
  by_cases hout : output = []
  · rw [if_neg (by simp [hout]), if_pos ⟨hout, hsegs⟩]
  · have hpos := length_pos_iff.mpr hout
    rw [if_pos (by omega), if_neg (fun h => hout h.1), Nat.add_sub_cancel, take_left]

/-- An output that starts with an empty segment and one that does not become the same when the
segments climb out of the latter. -/
lemma foldl_enter_nil_cons (segments : List (List α)) (output : List (List α)) :
    segments.foldl (enter dot) ([] :: output) =
      if climbs dot output.length segments then segments.foldl (enter dot) output
      else [] :: segments.foldl (enter dot) output := by
  induction segments generalizing output with
  | nil => simp [climbs]
  | cons segment rest ih =>
    rw [foldl_cons, foldl_cons, climbs]
    by_cases hdotdot : segment = [dot, dot]
    · rw [if_pos hdotdot, hdotdot]
      match output with
      | [] =>
        have henter : enter dot [[]] [dot, dot] = [[]] := by simp [enter]
        have henter' : enter dot [] [dot, dot] = [] := by simp [enter]
        rw [henter, henter', ih]
        simp
      | [a] =>
        have henter : enter dot [[], a] [dot, dot] = [[]] := by simp [enter]
        have henter' : enter dot [a] [dot, dot] = [[]] := by simp [enter]
        rw [henter, henter']
        simp
      | a :: b :: output =>
        have henter : enter dot ([] :: a :: b :: output) [dot, dot] = [] :: (a :: b :: output).dropLast := by simp [enter]
        have henter' : enter dot (a :: b :: output) [dot, dot] = (a :: b :: output).dropLast := by simp [enter]
        rw [henter, henter', ih, length_dropLast]
        simp
    · by_cases hdot : segment = [dot]
      · have henter (o : List (List α)) : enter dot o segment = o := by rw [enter, if_neg hdotdot, if_pos hdot]
        rw [if_neg hdotdot, if_pos hdot, henter, henter, ih]
      have henter (o : List (List α)) : enter dot o segment = o ++ [segment] := by
        rw [enter, if_neg hdotdot, if_neg hdot]
      rw [if_neg hdotdot, if_neg hdot, henter, henter, cons_append, ih, length_append, length_singleton]

lemma normalize_ne_nil (h : segments ≠ []) : normalize dot output segments ≠ [] := by
  obtain ⟨init, last, rfl⟩ := (eq_nil_or_concat' segments).resolve_left h
  rw [normalize]
  split_ifs with hlast
  · simp
  · have hdots : ¬IsDots dot last := fun h => hlast ⟨last, by simp, h⟩
    rw [foldl_append, foldl_cons, enter_of_not_isDots hdots]
    simp

lemma normalize_append {rest : List (List α)} (h : rest ≠ []) :
    normalize dot output (segments ++ rest) = normalize dot (segments.foldl (enter dot) output) rest := by
  rw [normalize, normalize, foldl_append, getLast?_append_of_ne_nil _ h]

/-- The output stays empty when there are only dot segments. -/
lemma foldl_enter_eq_nil_iff : segments.foldl (enter dot) [] = [] ↔ ∀ s ∈ segments, IsDots dot s := by
  have hkeeps (segments : List (List α)) : ∀ output : List (List α), output ≠ [] →
      segments.foldl (enter dot) output ≠ [] := by
    induction segments with
    | nil => exact fun output h => h
    | cons segment rest ih => exact fun output h => ih _ (enter_ne_nil h)
  induction segments with
  | nil => simp
  | cons segment rest ih =>
    rw [foldl_cons, forall_mem_cons]
    by_cases hdots : IsDots dot segment
    · have henter : enter dot [] segment = [] := by obtain rfl | rfl := hdots <;> simp [enter]
      rw [henter, and_iff_right hdots]
      exact ih
    · rw [enter_of_not_isDots hdots]
      exact iff_of_false (hkeeps rest _ (by simp)) fun h => hdots h.1

lemma normalize_nil_cons (segments : List (List α)) (output : List (List α)) : normalize dot ([] :: output) segments =
      if climbs dot output.length segments then normalize dot output segments
      else [] :: normalize dot output segments := by
  simp only [normalize, foldl_enter_nil_cons]
  split_ifs <;> simp

/-- Whether the output is empty or absolute at first shows, except when the segments climb out of it. -/
lemma join_normalize_eq_iff (h : segments ≠ []) :
    join slash (normalize dot [] segments) = join slash (normalize dot [[]] segments) ↔ climbs dot 0 segments = true := by
  rw [normalize_nil_cons, length_nil]
  by_cases hclimbs : climbs dot 0 segments = true
  · simp [hclimbs]
  rw [if_neg hclimbs, join_cons_of_ne_nil (normalize_ne_nil h)]
  refine iff_of_false (fun heq => ?_) hclimbs
  have := congrArg length heq
  simp at this

lemma not_isDots_enter {segment : List α} (h : ∀ s ∈ output, ¬IsDots dot s) :
    ∀ s ∈ enter dot output segment, ¬IsDots dot s := by
  intro s hs
  unfold enter at hs
  split_ifs at hs with h1 h2 h3 h4
  · simp at hs
  · simp [mem_singleton.mp hs, IsDots]
  · exact h s ((dropLast_sublist _).subset hs)
  · exact h s hs
  · obtain hs | hs := mem_append.mp hs
    · exact h s hs
    · rw [mem_singleton.mp hs]
      exact fun hdots => hdots.elim h4 h1

/-- No dot segments are left. -/
lemma not_isDots_normalize : ∀ s ∈ normalize dot [] segments, ¬IsDots dot s := by
  have hfold : ∀ output : List (List α), (∀ s ∈ output, ¬IsDots dot s) →
      ∀ s ∈ segments.foldl (enter dot) output, ¬IsDots dot s := by
    induction segments with
    | nil => exact fun output h => h
    | cons segment rest ih => exact fun output h => ih _ (not_isDots_enter h)
  have hnil := hfold [] (by simp)
  rw [normalize]
  split_ifs
  · intro s hs
    obtain hs | hs := mem_append.mp hs
    · exact hnil s hs
    · simp [mem_singleton.mp hs, IsDots]
  · exact hnil

lemma normalize_of_not_isDots (h : ∀ s ∈ segments, ¬IsDots dot s) : normalize dot output segments = output ++ segments := by
  rw [normalize, if_neg, foldl_enter h]
  rintro ⟨last, hlast, hdots⟩
  exact h last (mem_of_getLast? hlast) hdots

lemma slash_notMem_normalize (h : ∀ s ∈ segments, slash ∉ s) : ∀ s ∈ normalize dot [] segments, slash ∉ s := by
  have hfold : ∀ output : List (List α), (∀ s ∈ output, slash ∉ s) →
      ∀ s ∈ segments.foldl (enter dot) output, slash ∉ s := by
    induction segments with
    | nil => exact fun output h => h
    | cons segment rest ih =>
      exact fun output hout => ih (fun s hs => h s (.tail _ hs)) _ (slash_notMem_enter hout (h segment (.head _)))
  have hnil := hfold [] (by simp)
  rw [normalize]
  split_ifs
  · intro s hs
    obtain hs | hs := mem_append.mp hs
    · exact hnil s hs
    · simp [mem_singleton.mp hs]
  · exact hnil

lemma slash_notMem_splitOn (path : List α) : ∀ s ∈ path.splitOn slash, slash ∉ s := by
  induction path with
  | nil => simp [splitOn_nil]
  | cons c path ih =>
    rw [splitOn, splitOnP_cons_eq_if_modifyHead]
    split_ifs with hc
    · rw [splitOn] at ih
      simpa using ih
    · intro s hs
      obtain ⟨head, rest, hsplit⟩ := exists_cons_of_ne_nil (splitOnP_ne_nil (· == slash) path)
      rw [splitOn, hsplit] at ih
      rw [hsplit] at hs
      obtain rfl | hs := mem_cons.mp hs
      · have hne : slash ≠ c := fun h => hc (beq_iff_eq.mpr h.symm)
        exact fun hmem => (mem_cons.mp hmem).elim hne (ih head (.head _))
      · exact ih s (.tail _ hs)

lemma rewrite_eq_join (hne : dot ≠ slash) (path : List α) :
    rewrite slash dot [] path = join slash (normalize dot [] (path.splitOn slash)) := by
  rw [← rewrite_join hne (splitOn_ne_nil slash path) (slash_notMem_splitOn path), join, intercalate_splitOn]

lemma rewrite_rewrite (hne : dot ≠ slash) (path : List α) :
    rewrite slash dot [] (rewrite slash dot [] path) = rewrite slash dot [] path := by
  have hnonempty : normalize dot [] (path.splitOn slash) ≠ [] := normalize_ne_nil (splitOn_ne_nil slash path)
  have hslash : ∀ s ∈ normalize dot [] (path.splitOn slash), slash ∉ s := slash_notMem_normalize (slash_notMem_splitOn path)
  rw [rewrite_eq_join hne path, rewrite_join hne hnonempty hslash, normalize_of_not_isDots not_isDots_normalize,
    nil_append]

end dart.dot_segments
