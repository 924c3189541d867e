import Mathlib.Data.List.Nodup
import DartVM.FlowAnalysis.FlowLink
import DartVM.Lib.Loops

namespace dart.flow_analysis
open dart.parent_tree dart.loops Option List FlowLinkDiffEntry ParentTree Function

section
variable {T : Type}

variable (list : List (Option T))

lemma list_get_eq (index : Nat) : list_get list index = list[index]?.join := by
  unfold list_get
  split_ifs with h
  · rw [getElem?_eq_getElem h, join_some]
  · rw [getElem?_eq_none (by omega), join_none]

lemma list_get_set (index other : Nat) (value : Option T) :
    list_get (list_set list index value) other = if other = index then value else list_get list other := by
  rw [list_get_eq, list_get_eq, list_set, getElem?_set]
  by_cases h : index = other
  · rw [if_pos h, if_pos (by simp; omega), if_pos h.symm, join_some]
  rw [if_neg h, if_neg (Ne.symm h)]
  by_cases hother : other < list.length
  · rw [getElem?_append_left hother]
  · rw [getElem?_append_right (by omega), getElem?_replicate, getElem?_eq_none (by omega)]
    split_ifs <;> rfl

end

variable {Link : Type} {links : FlowLinks Link} {entries entries' : List (FlowLinkDiffEntry Link)}
  {diff_indices : List (Option Nat)} {entry : FlowLinkDiffEntry Link}

lemma depth_eq_height (link : Option Link) : depth links.deref link = links.tree.height link := by
  rw [links.depth_eq_elim]
  rfl

lemma previous_for_key_eq_lookup (link : Link) :
    (links.deref link).previous_for_key = links.lookup (links.tree.parent link) (links.key link) :=
  links.previous_for_key_eq link

namespace FlowLinkDiffEntry
variable (side : Side) (entry : FlowLinkDiffEntry Link) (link : Link) (previous_for_key : Option Link) (key : Nat)

@[simp] lemma create_key : (create side key link previous_for_key).key = key := by cases side <;> rfl

@[simp] lemma create_previous_for_key : (create side key link previous_for_key).previous_for_key = previous_for_key := by
  cases side <;> rfl

lemma first_create (other : Side) :
    (create side key link previous_for_key).first other = if other = side then some link else none := by
  cases side <;> cases other <;> rfl

@[simp] lemma update_key : (entry.update side link previous_for_key).key = entry.key := by cases side <;> rfl

@[simp] lemma update_previous_for_key :
    (entry.update side link previous_for_key).previous_for_key = previous_for_key := by
  cases side <;> rfl

lemma first_update (other : Side) : (entry.update side link previous_for_key).first other =
      if other = side then (entry.first side).or (some link) else entry.first other := by
  cases side <;> cases other <;> rfl

end FlowLinkDiffEntry

/-- The keys of the entries, in their order. -/
def keys (entries : List (FlowLinkDiffEntry Link)) : List Nat := entries.map FlowLinkDiffEntry.key

lemma key_mem (h : entry ∈ entries) : entry.key ∈ keys entries := mem_map_of_mem h

lemma keys_getElem? (index : Nat) : (keys entries)[index]? = entries[index]?.map key := getElem?_map

/-- The indices locate exactly the entries, each under its key. -/
def Indexed (entries : List (FlowLinkDiffEntry Link)) (diff_indices : List (Option Nat)) : Prop :=
  ∀ key index, list_get diff_indices key = some index ↔ (keys entries)[index]? = some key

variable {key : Nat}

lemma Indexed.get_eq_none (h : Indexed entries diff_indices) (hkey : key ∉ keys entries) :
    list_get diff_indices key = none := by
  cases hget : list_get diff_indices key with
  | none => rfl
  | some index => exact absurd (mem_of_getElem? ((h key index).mp hget)) hkey

lemma Indexed.append (h : Indexed entries diff_indices) (hkey : entry.key ∉ keys entries) :
    Indexed (entries ++ [entry]) (list_set diff_indices entry.key (some entries.length)) := by
  intro key index
  have hkeys : keys (entries ++ [entry]) = keys entries ++ [entry.key] := map_append
  have hlen : entries.length = (keys entries).length := (length_map _).symm
  rw [list_get_set, hkeys, hlen]
  split_ifs with heq
  · rw [heq, some.injEq]
    constructor
    · intro hidx
      rw [← hidx, getElem?_concat_length]
    · intro hidx
      by_contra hne
      rcases Nat.lt_or_gt_of_ne hne with hgt | hlt
      · rw [getElem?_eq_none (by simp; omega)] at hidx
        cases hidx
      · rw [getElem?_append_left hlt] at hidx
        exact hkey (mem_of_getElem? hidx)
  · rw [h key index]
    constructor
    · intro hidx
      rw [List.getElem?_append_left (List.getElem?_eq_some_iff.mp hidx).1, hidx]
    · intro hidx
      rw [getElem?_append] at hidx
      split_ifs at hidx with hlt
      · exact hidx
      · exact absurd (mem_singleton.mp (mem_of_getElem? hidx)) heq

/-- A computation that changes the entries in the same way whatever scratch area
locates them. -/
def Yields {β : Type} (f : Scratch Link → Checked (Scratch Link × β)) (entries entries' : List (FlowLinkDiffEntry Link))
    (result : β) : Prop :=
  ∀ diff_indices, Indexed entries diff_indices →
    ∃ diff_indices', f ⟨entries, diff_indices⟩ = .ok (⟨entries', diff_indices'⟩, result) ∧ Indexed entries' diff_indices'

lemma Yields.done {β : Type} (result : β) : Yields (fun scratch => .ok (scratch, result)) entries entries result :=
  fun diff_indices h => ⟨diff_indices, rfl, h⟩

lemma Yields.bind {β γ : Type} {f : Scratch Link → Checked (Scratch Link × β)} {result : β}
    {g : Scratch Link × β → Checked (Scratch Link × γ)} {entries'' : List (FlowLinkDiffEntry Link)} {result' : γ}
    (hf : Yields f entries entries' result) (hg : Yields (fun scratch => g (scratch, result)) entries' entries'' result') :
    Yields (fun scratch => f scratch >>= g) entries entries'' result' := by
  intro diff_indices h
  obtain ⟨diff_indices', hrun, h'⟩ := hf diff_indices h
  obtain ⟨diff_indices'', hrun', h''⟩ := hg diff_indices' h'
  refine ⟨diff_indices'', ?_, h''⟩
  change f ⟨entries, diff_indices⟩ >>= g = _
  rw [hrun]
  exact hrun'

/-- What a step does to an entry with the key of its link. -/
inductive Touched (side : Side) (link : Link) (entries : List (FlowLinkDiffEntry Link)) (entry : FlowLinkDiffEntry Link) :
    Prop
  | created (habsent : entry.key ∉ keys entries)
      (hfirst : ∀ other, entry.first other = if other = side then some link else none)
  | updated (old : FlowLinkDiffEntry Link) (hold : old ∈ entries) (hkey : old.key = entry.key)
      (hfirst : ∀ other, entry.first other = if other = side then (old.first side).or (some link) else old.first other)

/-- What a step does to the entries. -/
structure Stepped (links : FlowLinks Link) (side : Side) (link : Link) (entries entries' : List (FlowLinkDiffEntry Link)) :
    Prop where
  nodup : (keys entries').Nodup
  mem_keys : ∀ key, key ∈ keys entries' ↔ key = links.key link ∨ key ∈ keys entries
  mem : ∀ entry ∈ entries', entry.key ≠ links.key link ∧ entry ∈ entries ∨
    entry.key = links.key link ∧ entry.previous_for_key = links.lookup (links.tree.parent link) (links.key link) ∧
      Touched side link entries entry

lemma step_of_absent (hnodup : (keys entries).Nodup) (side : Side) {link : Link} (habs : links.key link ∉ keys entries) :
    ∃ entries', Yields (step links side link) entries entries' (links.tree.parent link) ∧
      Stepped links side link entries entries' := by
  have hkeys : ∀ entry : FlowLinkDiffEntry Link, keys (entries ++ [entry]) = keys entries ++ [entry.key] :=
    fun entry => map_append
  refine ⟨entries ++ [.create side (links.key link) link (links.deref link).previous_for_key], ?_, ?_, ?_, ?_⟩
  · intro diff_indices h
    rw [step, h.get_eq_none habs]
    refine ⟨_, rfl, ?_⟩
    have hkey : (create side (links.key link) link (links.deref link).previous_for_key).key ∉
        keys entries := by rwa [create_key]
    have happend := h.append hkey
    rwa [create_key] at happend
  · rw [hkeys, create_key]
    exact nodup_append_comm.mp (nodup_cons.mpr ⟨habs, hnodup⟩)
  · intro key
    rw [hkeys, create_key, mem_append, mem_singleton, or_comm]
  · intro entry hent
    rcases mem_append.mp hent with hent | hent
    · refine .inl ⟨fun hkey => habs ?_, hent⟩
      rw [← hkey]
      exact key_mem hent
    rw [mem_singleton.mp hent]
    refine .inr ⟨create_key .., ?_, .created ?_ ?_⟩
    · rw [create_previous_for_key, previous_for_key_eq_lookup]
    · rwa [create_key]
    · exact first_create side link _ _

lemma step_of_present (hnodup : (keys entries).Nodup) (side : Side) {link : Link}
    (hpres : links.key link ∈ keys entries) :
    ∃ entries', Yields (step links side link) entries entries' (links.tree.parent link) ∧
      Stepped links side link entries entries' := by
  obtain ⟨index, hidx⟩ := mem_iff_getElem?.mp hpres
  have hent := hidx
  rw [keys_getElem?, map_eq_some_iff] at hent
  obtain ⟨old, hold, holdkey⟩ := hent
  have hkeys : keys (entries.set index (old.update side link (links.deref link).previous_for_key)) = keys entries := by
    refine ext_getElem? fun other => ?_
    rw [keys_getElem?, keys_getElem?, getElem?_set]
    split_ifs with heq hlt
    · rw [← heq, hold, map_some, map_some, update_key]
    · rw [← heq, getElem?_eq_none (by omega), map_none]
    · rfl
  refine ⟨entries.set index (old.update side link (links.deref link).previous_for_key), ?_, ?_, ?_, ?_⟩
  · intro diff_indices h
    rw [step, (h _ index).mpr hidx]
    dsimp only
    rw [hold]
    refine ⟨diff_indices, rfl, fun key other => ?_⟩
    rw [hkeys]
    exact h key other
  · rwa [hkeys]
  · intro key
    rw [hkeys]
    exact ⟨.inr, fun hkey => hkey.elim (fun heq => heq ▸ hpres) id⟩
  · intro entry hent
    obtain ⟨other, hother⟩ := mem_iff_getElem?.mp hent
    rw [getElem?_set] at hother
    split_ifs at hother with heq hlt
    · rw [← some.inj hother]
      refine .inr ⟨?_, ?_, .updated old (mem_of_getElem? hold) ?_ ?_⟩
      · rw [update_key, holdkey]
      · rw [update_previous_for_key, previous_for_key_eq_lookup]
      · rw [update_key]
      · exact first_update side old link _
    · refine .inl ⟨fun hkey => heq ?_, mem_of_getElem? hother⟩
      have hother' : (keys entries)[other]? = some (links.key link) := by
        rw [keys_getElem?, hother, map_some, hkey]
      exact (List.getElem?_inj (List.getElem?_eq_some_iff.mp hidx).1 hnodup).mp (hidx.trans hother'.symm)

variable (links) in
lemma step_spec (hnodup : (keys entries).Nodup) (side : Side) (link : Link) :
    ∃ entries', Yields (step links side link) entries entries' (links.tree.parent link) ∧
      Stepped links side link entries entries' := by
  by_cases hkey : links.key link ∈ keys entries
  · exact step_of_present hnodup side hkey
  · exact step_of_absent hnodup side hkey

/-- What the entries say about a walk that began at `start` and has come to `now` on
each side. -/
structure Walked (links : FlowLinks Link) (start now : Side → Option Link)
    (entries : List (FlowLinkDiffEntry Link)) : Prop where
  nodup : (keys entries).Nodup
  above : ∀ side, links.tree.AtOrAbove (now side) (start side)
  occurs : ∀ key, key ∈ keys entries ↔ ∃ side, links.tree.OccursBelow links.key (now side) (start side) key
  first : ∀ side, ∀ entry ∈ entries,
    links.lookup (start side) entry.key = (entry.first side).or (links.lookup (now side) entry.key)
  absent : ∀ side, ∀ key ∉ keys entries, links.lookup (start side) key = links.lookup (now side) key
  previous_for_key : ∀ entry ∈ entries,
    ∃ side, entry.previous_for_key = links.lookup (now side) entry.key

variable {start now : Side → Option Link} {side : Side} {link : Link}

lemma lookup_of_key_ne (h : key ≠ links.key link) :
    links.lookup (some link) key = links.lookup (links.tree.parent link) key := lookup_of_label_ne h.symm

lemma lookup_key (link : Link) : links.lookup (some link) (links.key link) = some link := lookup_of_label rfl

/-- The lookups of the other keys do not see the step. -/
lemma lookup_update (hnow : now side = some link) (other : Side) (hkey : key ≠ links.key link) :
    links.lookup (update now side (links.tree.parent link) other) key = links.lookup (now other) key := by
  by_cases h : other = side
  · rw [h, update_self, hnow, lookup_of_key_ne hkey]
  · rw [update_of_ne h]

lemma Walked.stepped (h : Walked links start now entries) (hnow : now side = some link)
    (hstep : Stepped links side link entries entries') :
    Walked links start (update now side (links.tree.parent link)) entries' where
  nodup := hstep.nodup
  above other := by
    by_cases heq : other = side
    · rw [heq, update_self]
      refine (atOrAbove_parent link).trans ?_
      rw [← hnow]
      exact h.above side
    · rw [update_of_ne heq]
      exact h.above other
  occurs key := by
    have habove : links.tree.AtOrAbove (some link) (start side) := hnow ▸ h.above side
    rw [hstep.mem_keys, h.occurs]
    constructor
    · rintro (hkey | ⟨other, hother⟩)
      · refine ⟨side, ?_⟩
        rw [update_self, occursBelow_parent_iff habove]
        exact .inl hkey.symm
      · refine ⟨other, ?_⟩
        by_cases heq : other = side
        · rw [heq, update_self, occursBelow_parent_iff habove, ← hnow, ← heq]
          exact .inr hother
        · rwa [update_of_ne heq]
    · rintro ⟨other, hother⟩
      by_cases heq : other = side
      · rw [heq, update_self, occursBelow_parent_iff habove, ← hnow] at hother
        exact hother.imp Eq.symm fun hother => ⟨side, hother⟩
      · rw [update_of_ne heq] at hother
        exact .inr ⟨other, hother⟩
  first other entry hent := by
    rcases hstep.mem entry hent with ⟨hkey, hold⟩ | ⟨hkey, -, htouched⟩
    · rw [lookup_update hnow other hkey]
      exact h.first other entry hold
    by_cases heq : other = side
    · have hlook : links.lookup (now other) entry.key = some link := by rw [heq, hnow, hkey, lookup_key]
      cases htouched with
      | created habs hfst => rw [hfst, if_pos heq, h.absent other _ habs, hlook, some_or]
      | updated old hold hkey' hfst =>
        rw [hfst, if_pos heq, ← hkey', h.first other old hold, hkey', hlook, ← heq, Option.or_assoc, some_or]
    · rw [update_of_ne heq]
      cases htouched with
      | created habs hfst => rw [hfst, if_neg heq, h.absent other _ habs, none_or]
      | updated old hold hkey' hfst => rw [hfst, if_neg heq, ← hkey', h.first other old hold]
  absent other key hkey := by
    rw [hstep.mem_keys, not_or] at hkey
    rw [lookup_update hnow other hkey.1]
    exact h.absent other key hkey.2
  previous_for_key entry hent := by
    rcases hstep.mem entry hent with ⟨hkey, hold⟩ | ⟨hkey, hprev, -⟩
    · obtain ⟨other, hother⟩ := h.previous_for_key entry hold
      refine ⟨other, ?_⟩
      rw [lookup_update hnow other hkey]
      exact hother
    · refine ⟨side, ?_⟩
      rw [update_self, hkey]
      exact hprev

/-- No common ancestor of the two starting points has been passed. -/
def KeepsCommon (links : FlowLinks Link) (start now : Side → Option Link) : Prop :=
  ∀ other, (∀ side, links.tree.AtOrAbove other (start side)) → ∀ side, links.tree.AtOrAbove other (now side)

lemma KeepsCommon.update (h : KeepsCommon links start now) (hnow : now side = some link)
    (hpass : ∀ other, (∀ side, links.tree.AtOrAbove other (now side)) → other ≠ some link) :
    KeepsCommon links start (update now side (links.tree.parent link)) := by
  intro other hother side'
  have habove := h other hother
  by_cases heq : side' = side
  · rw [heq, update_self]
    have hside := habove side
    rw [hnow] at hside
    exact hside.parent_of_ne (hpass other habove)
  · rw [update_of_ne heq]
    exact habove side'

/-- The deeper argument is walked up until it is as deep as the other one. -/
lemma walk_spec (side opposite : Side) (hside : opposite ≠ side) (link_depth : Nat)
    (h : Walked links start now entries) (hcommon : KeepsCommon links start now)
    (hdepth : links.tree.height (now side) = link_depth) (hle : links.tree.height (now opposite) ≤ link_depth) :
    ∃ entries' link', Yields (walk links (step links side) (links.tree.height (now opposite)) link_depth (now side))
        entries entries' link' ∧ Walked links start (update now side link') entries' ∧
      KeepsCommon links start (update now side link') ∧ links.tree.height link' = links.tree.height (now opposite) := by
  induction link_depth generalizing now entries with
  | zero =>
    refine ⟨entries, now side, .done _, ?_, ?_, by omega⟩
    · rwa [update_eq_self]
    · rwa [update_eq_self]
  | succ link_depth ih =>
    by_cases hgt : link_depth + 1 > links.tree.height (now opposite)
    · cases hnow : now side with
      | none =>
        rw [hnow, height_none] at hdepth
        omega
      | some link =>
        obtain ⟨entries1, hrun, hstepped⟩ := step_spec links h.nodup side link
        have hpar : links.tree.height (links.tree.parent link) = link_depth := by
          rw [hnow, height_some] at hdepth
          omega
        have hopp : update now side (links.tree.parent link) opposite = now opposite := update_of_ne hside _ _
        have hpass : ∀ other, (∀ side, links.tree.AtOrAbove other (now side)) → other ≠ some link := by
          intro other hother heq
          have hheight := (hother opposite).height_le
          rw [heq, height_some] at hheight
          omega
        obtain ⟨entries2, link', hrest, hwalk, hkeeps, hheight⟩ := ih (h.stepped hnow hstepped) (hcommon.update hnow hpass)
          (by rw [update_self, hpar]) (by rw [hopp]; omega)
        rw [update_self, hopp] at hrest
        rw [update_idem] at hwalk hkeeps
        refine ⟨entries2, link', ?_, hwalk, hkeeps, hheight.trans (by rw [hopp])⟩
        intro diff_indices hidx
        rw [walk, if_pos hgt]
        exact hrun.bind (g := fun r => do
          check (link_depth = depth links.deref r.2)
          walk links (step links side) (links.tree.height (now opposite)) link_depth r.2 r.1)
          (by simpa only [depth_eq_height, hpar, decide_true, check_true, ok_bind] using hrest) diff_indices hidx
    · refine ⟨entries, now side, ?_, ?_, ?_, by omega⟩
      · intro diff_indices hidx
        rw [walk, if_neg hgt]
        exact ⟨diff_indices, rfl, hidx⟩
      · rwa [update_eq_self]
      · rwa [update_eq_self]

lemma some_of_height_eq {left right : Option Link} (hne : left ≠ right)
    (hheight : links.tree.height left = links.tree.height right) : ∃ l r, left = some l ∧ right = some r := by
  cases left with
  | none =>
    cases right with
    | none => exact absurd rfl hne
    | some r => simp at hheight
  | some l =>
    cases right with
    | none => simp at hheight
    | some r => exact ⟨l, r, rfl, rfl⟩

/-- The scratch area between two calls. -/
def Clear (diff_indices : List (Option Nat)) : Prop := ∀ key, list_get diff_indices key = none

lemma list_get_set_none {list : List (Option Nat)} (index other : Nat) :
    list_get (list.set index none) other = if other = index then none else list_get list other := by
  rw [list_get_eq, list_get_eq, getElem?_set]
  by_cases h : index = other
  · rw [if_pos h.symm]
    split_ifs <;> rfl
  · rw [if_neg h, if_neg (Ne.symm h)]

/-- The indices locate the entries from the position `n` on. -/
def IndexedFrom (n : Nat) (entries : List (FlowLinkDiffEntry Link)) (diff_indices : List (Option Nat)) : Prop :=
  ∀ key index, list_get diff_indices key = some index ↔ (keys entries)[index]? = some key ∧ n ≤ index

lemma IndexedFrom.set_none {n : Nat} (hnodup : (keys entries).Nodup)
    (h : IndexedFrom n entries diff_indices) (hent : entries[n]? = some entry) :
    diff_indices[entry.key]? = some (some n) ∧ IndexedFrom (n + 1) entries (diff_indices.set entry.key none) := by
  have hkey : (keys entries)[n]? = some entry.key := by rw [keys_getElem?, hent, map_some]
  constructor
  · have hget := (h entry.key n).mpr ⟨hkey, le_rfl⟩
    rwa [list_get_eq, join_eq_some_iff] at hget
  intro key index
  rw [list_get_set_none]
  split_ifs with heq
  · rw [iff_false_left (by simp), not_and]
    intro hidx
    have hsame : index = n :=
      (List.getElem?_inj (List.getElem?_eq_some_iff.mp hidx).1 hnodup).mp (by rw [hidx, hkey, heq])
    omega
  · rw [h key index]
    refine and_congr_right fun hidx => ⟨fun hle => ?_, fun hle => by omega⟩
    have hne : index ≠ n := by
      rintro rfl
      rw [hkey, some.injEq] at hidx
      exact heq hidx.symm
    omega

lemma clear_indices_spec (hnodup : (keys entries).Nodup) (h : Indexed entries diff_indices) :
    ∃ diff_indices', clear_indices entries diff_indices = .ok diff_indices' ∧ Clear diff_indices' := by
  have hinit : IndexedFrom 0 entries diff_indices := fun key index => by simpa using h key index
  have hloop := foldlM_prefix_spec
    (fun diff_indices e => do
      check (diff_indices[e.1.key]? = some (some e.2))
      if e.1.key < diff_indices.length then .ok (diff_indices.set e.1.key none) else .error .out_of_bounds)
    (fun visited => IndexedFrom visited.length entries) entries.zipIdx
    (by
      rintro visited ⟨entry, i⟩ rest diff_indices hlist hinv
      have hzip : entries.zipIdx[visited.length]? = some (entry, i) := by rw [hlist]; simp
      rw [List.getElem?_zipIdx, map_eq_some_iff, Nat.zero_add] at hzip
      obtain ⟨_, hent, hpair⟩ := hzip
      cases hpair
      obtain ⟨hget, hnext⟩ := hinv.set_none hnodup hent
      have hlt := (List.getElem?_eq_some_iff.mp hget).1
      rw [length_append, length_singleton]
      refine ⟨_, ?_, hnext⟩
      rw [check_bind hget, if_pos hlt])
    diff_indices hinit
  obtain ⟨diff_indices', hrun, hclr⟩ := hloop
  refine ⟨diff_indices', hrun, fun key => ?_⟩
  cases hget : list_get diff_indices' key with
  | none => rfl
  | some index =>
    obtain ⟨hidx, hle⟩ := (hclr key index).mp hget
    have hlt := (List.getElem?_eq_some_iff.mp hidx).1
    rw [length_zipIdx] at hle
    rw [keys, length_map] at hlt
    omega

variable [DecidableEq Link]

/-- Two links of the same depth are walked up to their common ancestor. -/
lemma walk_both_spec (fuel : Nat) (h : Walked links start now entries) (hcommon : KeepsCommon links start now)
    (hheight : links.tree.height (now .left) = links.tree.height (now .right))
    (hfuel : links.tree.height (now .left) < fuel) :
    ∃ entries' ancestor, Yields (walk_both links fuel (now .left) (now .right)) entries entries' ancestor ∧
      Walked links start (fun _ => ancestor) entries' ∧ KeepsCommon links start fun _ => ancestor := by
  induction fuel generalizing now entries with
  | zero => omega
  | succ fuel ih =>
    by_cases hne : now .left ≠ now .right
    · obtain ⟨left, right, hl, hr⟩ := some_of_height_eq hne hheight
      have hparents := hheight
      rw [hl, hr, height_some, height_some] at hparents
      -- A common ancestor as deep as the two links would be both of them.
      have hpass : ∀ other, (∀ side, links.tree.AtOrAbove other (now side)) → ∀ side, other ≠ now side := by
        intro other hother side heq
        have hle : ∀ side', links.tree.height (now side') ≤ links.tree.height other := by
          intro side'
          rw [heq]
          cases side <;> cases side' <;> omega
        exact hne (((hother .left).eq_of_height (hle .left)).symm.trans ((hother .right).eq_of_height (hle .right)))
      obtain ⟨entries1, hrunl, hsteppedl⟩ := step_spec links h.nodup .left left
      have hwalkedl := h.stepped hl hsteppedl
      have hcommonl := hcommon.update hl fun other hother => hl ▸ hpass other hother .left
      obtain ⟨entries2, hrunr, hsteppedr⟩ := step_spec links hwalkedl.nodup .right right
      have hnowr : update now .left (links.tree.parent left) .right = some right := by
        rw [update_of_ne (by decide), hr]
      have hpassr : ∀ other, (∀ side, links.tree.AtOrAbove other (update now .left (links.tree.parent left) side)) →
          other ≠ some right := by
        intro other hother heq
        have hle := (hother .left).height_le
        rw [update_self, heq, height_some] at hle
        omega
      have hcommonr := hcommonl.update hnowr hpassr
      obtain ⟨entries', ancestor, hrest, hwalk, hkeeps⟩ := ih (hwalkedl.stepped hnowr hsteppedr) hcommonr
        (by rw [update_of_ne (by decide), update_self, update_self]; omega)
        (by
          rw [update_of_ne (by decide), update_self]
          rw [hl, height_some] at hfuel
          omega)
      refine ⟨entries', ancestor, ?_, hwalk, hkeeps⟩
      intro diff_indices hidx
      rw [walk_both, if_pos hne, depth_eq_height, depth_eq_height, decide_eq_true hheight, check_true, hl, hr]
      exact hrunl.bind (g := fun l => do
        let r ← step_right links right l.1
        walk_both links fuel l.2 r.2 r.1)
        (hrunr.bind (g := fun r => walk_both links fuel _ r.2 r.1) hrest) diff_indices hidx
    · rw [not_not] at hne
      have hnow : now = fun _ => now .left := by
        funext side
        cases side
        · rfl
        · exact hne.symm
      refine ⟨entries, now .left, ?_, hnow ▸ h, hnow ▸ hcommon⟩
      intro diff_indices hidx
      rw [walk_both, if_neg (not_not.mpr hne)]
      exact ⟨diff_indices, rfl, hidx⟩

end dart.flow_analysis
