import DartVM.Collection.SplayTreeMap

namespace dart.collection
open dart.sorted_map collection.Tree List Answer Callback
variable {K V : Type}

namespace SplayTree
variable {compare : K → K → Int} {valid_key : K → Bool} {self : SplayTree K V} {key : K} {comp : Int}
  {callback : Callback K V}

section
variable (hcmp : TotalPreorder compare) (hok : self.Valid compare)
include hcmp hok

/-- A splayed tree has the key at the root, or its entries are split by the key and a new root goes between them. -/
lemma isSplayed_cases (h : self.root.IsSplayed compare key comp) :
    (comp = 0 ∧ ∃ left k value right, self.root = .node left k value right ∧ compare k key = 0 ∧
      Split compare key left.entries right.entries) ∨
    (comp ≠ 0 ∧ ∃ a b, self.root.entries = a ++ b ∧ Split compare key a b ∧
      ∀ value, (self.add_new_root key value comp).root.entries = a ++ (key, value) :: b) := by
  by_cases hcomp : comp = 0
  · obtain ⟨left, k, value, right, hroot, hk⟩ := h.exists_of_eq_zero hcomp
    have hsort := hok.sorted
    rw [hroot] at hsort
    exact .inl ⟨hcomp, left, k, value, right, hroot, hk, split_of_sorted hcmp hsort hk⟩
  refine .inr ⟨hcomp, ?_⟩
  obtain hroot | ⟨left, k, v, right, hroot, hcases⟩ := h.exists_of_ne_zero hcmp hok.sorted hcomp
  · refine ⟨[], [], by rw [hroot]; rfl, ⟨by simp, by simp⟩, fun value => ?_⟩
    simp [add_new_root, hroot, entries]
  obtain ⟨hlt, hsplit⟩ | ⟨hgt, hsplit⟩ := hcases
  · refine ⟨_, _, by rw [hroot]; simp [entries], hsplit, fun value => ?_⟩
    simp [add_new_root, hroot, hlt, entries]
  · refine ⟨_, _, by rw [hroot, entries], hsplit, fun value => ?_⟩
    simp [add_new_root, hroot, Int.not_lt.mpr (Int.le_of_lt hgt), entries]

/-- A new root is a new entry. -/
lemma add_new_root_valid (h : self.root.IsSplayed compare key comp) (hcomp : comp ≠ 0) (value : V) :
    (self.add_new_root key value comp).Valid compare ∧
      (self.add_new_root key value comp).root.entries = insert compare key value self.root.entries := by
  obtain ⟨h0, -⟩ | ⟨-, a, b, hents, hsplit, hnew⟩ := isSplayed_cases hcmp hok h
  · exact absurd h0 hcomp
  have hsort := hok.sorted
  have hcnt := hok.count_eq
  rw [hents, Sorted, pairwise_append] at hsort
  rw [hents, length_append] at hcnt
  refine ⟨⟨?_, ?_⟩, by rw [hnew, hents, hsplit.insert_append]⟩
  · rw [hnew]
    exact hsplit.sorted_cons hcmp hsort.1 hsort.2.1 (hcmp.refl key)
  · rw [hnew, add_new_root, length_append, length_cons]
    simp only [hcnt]
    omega

/-- Another value at the root. -/
lemma replace_value_valid (h : self.root.IsSplayed compare key 0) (value : V) :
    (self.replace_value value).Valid compare ∧
      (self.replace_value value).root.entries = insert compare key value self.root.entries := by
  obtain ⟨-, left, k, v, right, hroot, hk, hsplit⟩ | ⟨hne, -⟩ := isSplayed_cases hcmp hok h
  · have hsort := hok.sorted
    have hcnt := hok.count_eq
    rw [hroot, entries] at hsort hcnt
    have hnew : (self.replace_value value).root.entries = left.entries ++ (k, value) :: right.entries := by
      simp [replace_value, hroot, entries]
    refine ⟨⟨?_, ?_⟩, by rw [hnew, hroot, entries, hsplit.insert_cons hk]⟩
    · rw [Sorted, pairwise_append, pairwise_cons] at hsort
      rw [hnew]
      exact hsplit.sorted_cons hcmp hsort.1 hsort.2.1.2 hk
    · rw [hnew]
      simpa [replace_value] using hcnt
  · exact absurd rfl hne

lemma find_of_isSplayed (h : self.root.IsSplayed compare key comp) :
    (comp = 0 → ∃ e, find compare key self.root.entries = some e ∧ self.root_value = some e.2) ∧
      (comp ≠ 0 → find compare key self.root.entries = none) := by
  obtain ⟨h0, left, k, v, right, hroot, hk, hsplit⟩ | ⟨hne, a, b, hents, hsplit, -⟩ := isSplayed_cases hcmp hok h
  · refine ⟨fun _ => ⟨(k, v), ?_, ?_⟩, fun hne => absurd h0 hne⟩
    · rw [hroot, entries, hsplit.find_cons hk]
    · rw [root_value, hroot]
  · exact ⟨fun h0 => absurd h0 hne, fun _ => by rw [hents, hsplit.find_append]⟩

end

section
variable (hcmp : TotalPreorder compare) (hok : self.Valid compare)
include hcmp hok

/-- The comparison says whether the key is there. -/
lemma splay_find (key : K) : ((self.splay compare key).2 = 0 → ∃ e, find compare key self.root.entries = some e ∧
      (self.splay compare key).1.root_value = some e.2) ∧
    ((self.splay compare key).2 ≠ 0 → find compare key self.root.entries = none) := by
  have hsame := splay_sameEntries compare self key
  have h := find_of_isSplayed hcmp (hsame.valid hok) (splay_isSplayed compare self key hcmp hok)
  rwa [hsame.entries_eq] at h

variable (valid_key is_null : K → Bool)

lemma get_spec (key : K) :
    self.SameEntries (self.get compare valid_key key).1 ∧ self.CountsSplays (self.get compare valid_key key).1 ∧
      (self.get compare valid_key key).2 = lookup_entry compare valid_key self.root.entries key := by
  rw [get, lookup_entry]
  split_ifs with hkey
  · refine ⟨splay_sameEntries compare self key, splay_countsSplays compare self key, ?_⟩
    obtain ⟨h0, hne⟩ := splay_find hcmp hok key
    by_cases hcomp : (self.splay compare key).2 = 0
    · obtain ⟨e, hfind, hval⟩ := h0 hcomp
      simp [if_pos hcomp, hfind, hval]
    · simp [if_neg hcomp, hne hcomp]
  · exact ⟨.refl self, .refl self, rfl⟩

lemma contains_key_spec (key : K) : self.SameEntries (self.contains_key compare valid_key key).1 ∧
      self.CountsSplays (self.contains_key compare valid_key key).1 ∧
      (self.contains_key compare valid_key key).2 = (valid_key key && (find compare key self.root.entries).isSome) := by
  rw [contains_key]
  split_ifs with hkey
  · refine ⟨splay_sameEntries compare self key, splay_countsSplays compare self key, ?_⟩
    obtain ⟨h0, hne⟩ := splay_find hcmp hok key
    by_cases hcomp : (self.splay compare key).2 = 0
    · obtain ⟨e, hfind, -⟩ := h0 hcomp
      simp [hcomp, hfind, hkey]
    · simp [hcomp, hne hcomp]
  · exact ⟨.refl self, .refl self, by simp [hkey]⟩

end

lemma first_spec (self : SplayTree K V) : self.SameEntries self.first.1 ∧ self.first.2 =
    self.root.entries.head?.map Prod.fst := by
  rw [first]
  cases hroot : self.root with
  | leaf => exact ⟨.refl self, rfl⟩
  | node left key value right =>
    obtain ⟨k, v, r, hmin⟩ := splay_min_eq left key value right
    have hents := splay_min_entries left key value right
    simp only [hmin] at hents ⊢
    refine ⟨⟨by rw [hents, hroot], rfl, rfl⟩, ?_⟩
    rw [← hents]
    rfl

lemma last_spec (self : SplayTree K V) : self.SameEntries self.last.1 ∧ self.last.2 =
    self.root.entries.getLast?.map Prod.fst := by
  rw [last]
  cases hroot : self.root with
  | leaf => exact ⟨.refl self, rfl⟩
  | node left key value right =>
    obtain ⟨l, k, v, hmax⟩ := splay_max_eq left key value right
    have hents := splay_max_entries left key value right
    simp only [hmax] at hents ⊢
    refine ⟨⟨by rw [hents, hroot], rfl, rfl⟩, ?_⟩
    rw [← hents]
    simp [entries]

/-- A callback reads what is in the map. -/
lemma call_spec (hcmp : TotalPreorder compare) (hok : self.Valid compare) (valid_key : K → Bool)
    (callback : Callback K V) : self.SameEntries (self.call compare valid_key callback).1 ∧
      (self.call compare valid_key callback).2 = callback.result compare valid_key self.root.entries := by
  induction callback generalizing self with
  | done value => exact ⟨.refl self, rfl⟩
  | lookup key next ih =>
    obtain ⟨hsame, -, hres⟩ := get_spec hcmp hok valid_key key
    obtain ⟨hsame', hres'⟩ := ih (self.get compare valid_key key).2 (hsame.valid hok)
    refine ⟨hsame.trans hsame', ?_⟩
    rw [call, hres', hsame.entries_eq, hres, result]
  | contains_key key next ih =>
    obtain ⟨hsame, -, hres⟩ := contains_key_spec hcmp hok valid_key key
    obtain ⟨hsame', hres'⟩ := ih (self.contains_key compare valid_key key).2 (hsame.valid hok)
    refine ⟨hsame.trans hsame', ?_⟩
    rw [call, hres', hsame.entries_eq, hres, result]
  | first_key next ih =>
    obtain ⟨hsame, hres⟩ := first_spec self
    obtain ⟨hsame', hres'⟩ := ih self.first.2 (hsame.valid hok)
    refine ⟨hsame.trans hsame', ?_⟩
    rw [call, hres', hsame.entries_eq, hres, result]
  | last_key next ih =>
    obtain ⟨hsame, hres⟩ := last_spec self
    obtain ⟨hsame', hres'⟩ := ih self.last.2 (hsame.valid hok)
    refine ⟨hsame.trans hsame', ?_⟩
    rw [call, hres', hsame.entries_eq, hres, result]
  | for_each next ih => exact ih self.root.entries hok

/-- A callback that does not call `firstKey` or `lastKey` changes the counter when it changes the tree. -/
lemma call_countsSplays (hcmp : TotalPreorder compare) (hok : self.Valid compare) (valid_key : K → Bool)
    (hstab : callback.Stable) : self.CountsSplays (self.call compare valid_key callback).1 := by
  induction callback generalizing self with
  | done value => exact .refl self
  | lookup key next ih =>
    obtain ⟨hsame, hcnts, -⟩ := get_spec hcmp hok valid_key key
    exact hcnts.trans (ih _ (hsame.valid hok) (hstab _))
  | contains_key key next ih =>
    obtain ⟨hsame, hcnts, -⟩ := contains_key_spec hcmp hok valid_key key
    exact hcnts.trans (ih _ (hsame.valid hok) (hstab _))
  | first_key next ih | last_key next ih => exact absurd hstab id
  | for_each next ih => exact ih self.root.entries hok (hstab _)

section
variable (hcmp : TotalPreorder compare) (hok : self.Valid compare)
include hcmp hok
variable (key : K)

lemma set_spec (value : V) : (self.set compare key value).Valid compare ∧
      (self.set compare key value).root.entries = insert compare key value self.root.entries := by
  have hsame := splay_sameEntries compare self key
  have hsplay := splay_isSplayed compare self key hcmp hok
  rw [set, ← hsame.entries_eq]
  by_cases hcomp : (self.splay compare key).2 = 0
  · simp only [if_pos hcomp]
    exact replace_value_valid hcmp (hsame.valid hok) (hcomp ▸ hsplay) value
  · simp only [if_neg hcomp]
    exact add_new_root_valid hcmp (hsame.valid hok) hsplay hcomp value

lemma remove_node_spec : (self.remove_node compare key).1.Valid compare ∧
      (self.remove_node compare key).1.root.entries = erase compare key self.root.entries ∧
      (self.remove_node compare key).2 = find compare key self.root.entries := by
  have hsame := splay_sameEntries compare self key
  have hok' := hsame.valid hok
  obtain ⟨h0, left, k, v, right, hroot, hk, hsplit⟩ | ⟨hne, a, b, hents, hsplit, -⟩ :=
    isSplayed_cases hcmp hok' (splay_isSplayed compare self key hcmp hok)
  · have hsort := hok'.sorted
    have hcnt := hok'.count_eq
    rw [hroot, entries] at hsort hcnt
    rw [Sorted, pairwise_append, pairwise_cons] at hsort
    obtain ⟨hl, ⟨-, hr⟩, hcross⟩ := hsort
    simp only [remove_node, hroot, h0, ne_eq, not_true_eq_false, if_false, ← hsame.entries_eq, entries,
      hsplit.erase_cons (e := (k, v)) hk, hsplit.find_cons (e := (k, v)) hk]
    refine ⟨⟨?_, ?_⟩, without_root_entries left right, trivial⟩
    · rw [without_root_entries, Sorted, pairwise_append]
      exact ⟨hl, hr, fun x hx y hy => hcross x hx y (.tail _ hy)⟩
    · rw [without_root_entries, length_append]
      simp only [hcnt, length_append, length_cons]
      omega
  · have hres : self.remove_node compare key = ((self.splay compare key).1, none) := by
      cases hroot : (self.splay compare key).1.root with
      | leaf => simp [remove_node, hroot]
      | node left k v right => simp [remove_node, hroot, hne]
    rw [hres, ← hsame.entries_eq, hents, hsplit.erase_append, hsplit.find_append]
    exact ⟨hok', rfl, rfl⟩

variable (valid_key is_null : K → Bool)

lemma remove_spec (key : K) : (self.remove compare valid_key key).1.Valid compare ∧
      (self.remove compare valid_key key).1.root.entries =
        (if valid_key key then erase compare key self.root.entries else self.root.entries) ∧
      (self.remove compare valid_key key).2 = lookup_entry compare valid_key self.root.entries key := by
  rw [remove, lookup_entry]
  split_ifs with hkey
  · obtain ⟨hrem, hents, hres⟩ := remove_node_spec hcmp hok key
    exact ⟨hrem, hents, by simp [hres]⟩
  · exact ⟨hok, rfl, rfl⟩

/-- The value of a callback goes where the key belongs, although the callback may have splayed the tree. -/
lemma add_value_of_spec {key : K} {comp : Int} (hsplay : self.root.IsSplayed compare key comp) (hcomp : comp ≠ 0)
    (hstab : callback.Stable) (assert : Bool) :
    (self.add_value_of compare valid_key key callback comp assert).1.Valid compare ∧
      (self.add_value_of compare valid_key key callback comp assert).1.root.entries =
        insert compare key (callback.result compare valid_key self.root.entries) self.root.entries ∧
      (self.add_value_of compare valid_key key callback comp assert).2 =
        .value (some (callback.result compare valid_key self.root.entries)) := by
  obtain ⟨hsame, hres⟩ := call_spec hcmp hok valid_key callback
  have hcnts := call_countsSplays hcmp hok valid_key hstab
  have hnone := (find_of_isSplayed hcmp hok hsplay).2 hcomp
  simp only [add_value_of, hsame.modification_count_eq, ne_eq, not_true_eq_false, if_false, ← hres]
  set called := (self.call compare valid_key callback).1
  set value := (self.call compare valid_key callback).2
  by_cases hcnt : called.splay_count = self.splay_count
  · simp only [not_true_eq_false, if_false, hcnts.eq hcnt]
    obtain ⟨hnew, hents⟩ := add_new_root_valid hcmp hok hsplay hcomp value
    exact ⟨hnew, hents, trivial⟩
  have hne : ¬self.splay_count = called.splay_count := fun h => hcnt h.symm
  have hok' := hsame.valid hok
  have hagain : (called.splay compare key).2 ≠ 0 := fun h0 => by
    obtain ⟨e, hfind, -⟩ := (splay_find hcmp hok' key).1 h0
    rw [hsame.entries_eq, hnone] at hfind
    exact absurd hfind (by simp)
  have hsame' := hsame.trans (splay_sameEntries compare called key)
  obtain ⟨hnew, hents⟩ := add_new_root_valid hcmp (hsame'.valid hok)
    (splay_isSplayed compare called key hcmp hok') hagain value
  simp only [hne, not_false_eq_true, if_true, hagain, decide_false, Bool.and_false, Bool.false_eq_true, if_false]
  exact ⟨hnew, by rw [hents, hsame'.entries_eq], trivial⟩

/-- What is on the two sides of a key after it was splayed. -/
lemma splay_sides : ((self.splay compare key).1.root = .leaf ∧ self.root.entries = []) ∨
    ∃ left k v right, (self.splay compare key).1.root = .node left k v right ∧
      before compare key self.root.entries = left.entries ++ (if (self.splay compare key).2 < 0 then [(k, v)] else []) ∧
      after compare key self.root.entries = (if 0 < (self.splay compare key).2 then [(k, v)] else []) ++ right.entries := by
  have hsame := splay_sameEntries compare self key
  have hok' := hsame.valid hok
  have hsplay := splay_isSplayed compare self key hcmp hok
  rw [← hsame.entries_eq]
  by_cases hcomp : (self.splay compare key).2 = 0
  · obtain ⟨-, left, k, v, right, hroot, hk, hsplit⟩ | ⟨hne, -⟩ := isSplayed_cases hcmp hok' hsplay
    · refine .inr ⟨left, k, v, right, hroot, ?_⟩
      simp [hroot, hcomp, entries, hsplit.before_cons (e := (k, v)) hk, hsplit.after_cons (e := (k, v)) hk]
    · exact absurd hcomp hne
  obtain hroot | ⟨left, k, v, right, hroot, ⟨hlt, hsplit⟩ | ⟨hgt, hsplit⟩⟩ :=
    hsplay.exists_of_ne_zero hcmp hok'.sorted hcomp
  · exact .inl ⟨hroot, by rw [hroot]; rfl⟩
  · have hents : (node left k v right).entries = left.entries ++ [(k, v)] ++ right.entries := by
      simp [entries]
    refine .inr ⟨left, k, v, right, hroot, ?_⟩
    rw [hroot, hents, hsplit.before_append, hsplit.after_append, if_pos hlt, if_neg (by omega)]
    exact ⟨rfl, rfl⟩
  · refine .inr ⟨left, k, v, right, hroot, ?_⟩
    rw [hroot, entries, hsplit.before_append, hsplit.after_append, if_neg (by omega), if_pos hgt]
    exact ⟨(append_nil _).symm, rfl⟩

/-- The last key before a key. -/
lemma last_key_before_spec {is_null : K → Bool} (hkey : is_null key = false) :
    self.SameEntries (self.last_key_before compare is_null key).1 ∧ (self.last_key_before compare is_null key).2 =
      .key ((before compare key self.root.entries).getLast?.map Prod.fst) := by
  have hsame := splay_sameEntries compare self key
  obtain ⟨hroot, hempty⟩ | ⟨left, k, v, right, hroot, hbefore, -⟩ := splay_sides hcmp hok key
  · simp only [last_key_before, hkey, Bool.false_eq_true, if_false, hroot, hempty]
    exact ⟨hsame, rfl⟩
  · simp only [last_key_before, hkey, Bool.false_eq_true, if_false, hroot, hbefore, rightmost_key_eq]
    split_ifs <;> exact ⟨hsame, by simp⟩

/-- The first key after a key. -/
lemma first_key_after_spec {is_null : K → Bool} (hkey : is_null key = false) :
    self.SameEntries (self.first_key_after compare is_null key).1 ∧ (self.first_key_after compare is_null key).2 =
      .key ((after compare key self.root.entries).head?.map Prod.fst) := by
  have hsame := splay_sameEntries compare self key
  obtain ⟨hroot, hempty⟩ | ⟨left, k, v, right, hroot, -, hafter⟩ := splay_sides hcmp hok key
  · simp only [first_key_after, hkey, Bool.false_eq_true, if_false, hroot, hempty]
    exact ⟨hsame, rfl⟩
  · simp only [first_key_after, hkey, Bool.false_eq_true, if_false, hroot, hafter, leftmost_key_eq]
    split_ifs <;> exact ⟨hsame, by simp⟩

end

/-- A loop of operations. -/
lemma foldl_spec {α : Type} {f : SplayTree K V → α → SplayTree K V} {g : List (K × V) → α → List (K × V)}
    (hstep : ∀ self : SplayTree K V, self.Valid compare → ∀ a, (f self a).Valid compare ∧
      (f self a).root.entries = g self.root.entries a) (hok : self.Valid compare) (l : List α) :
    (l.foldl f self).Valid compare ∧ (l.foldl f self).root.entries = l.foldl g self.root.entries := by
  induction l generalizing self with
  | nil => exact ⟨hok, rfl⟩
  | cons a l ih =>
    obtain ⟨hnew, hents⟩ := hstep self hok a
    rw [foldl_cons, foldl_cons, ← hents]
    exact ih hnew

lemma add_all_spec (hcmp : TotalPreorder compare) (hok : self.Valid compare) (entries : List (K × V)) :
    (self.add_all compare entries).Valid compare ∧ (self.add_all compare entries).root.entries =
      entries.foldl (fun entries e => insert compare e.1 e.2 entries) self.root.entries :=
  foldl_spec (fun _ hok e => set_spec hcmp hok e.1 e.2) hok entries

/-- A state and an answer are those of the sorted map. -/
structure Refines (compare : K → K → Int) (result : SplayTree K V × Answer K V) (reference : List (K × V) × Answer K V) :
    Prop where
  valid : result.1.Valid compare
  entries_eq : result.1.root.entries = reference.1
  answer_eq : result.2 = reference.2

variable (hcmp : TotalPreorder compare) (hok : self.Valid compare)
include hcmp hok
variable (valid_key is_null : K → Bool)

lemma put_if_absent_refines (key : K) {if_absent : Callback K V} (hstab : if_absent.Stable) :
    Refines compare (self.put_if_absent compare valid_key key if_absent)
      (reference_step compare valid_key self.root.entries (.put_if_absent key if_absent)) := by
  have hsame := splay_sameEntries compare self key
  have hsplay := splay_isSplayed compare self key hcmp hok
  obtain ⟨h0, hne⟩ := splay_find hcmp hok key
  rw [put_if_absent, reference_step]
  by_cases hcomp : (self.splay compare key).2 = 0
  · obtain ⟨e, hfind, hval⟩ := h0 hcomp
    simp only [if_pos hcomp, hfind, hval]
    exact ⟨hsame.valid hok, hsame.entries_eq, rfl⟩
  obtain ⟨hnew, hents, hanswer⟩ := add_value_of_spec hcmp (hsame.valid hok) valid_key hsplay hcomp hstab true
  rw [hsame.entries_eq] at hents hanswer
  simp only [if_neg hcomp, hne hcomp]
  exact ⟨hnew, hents, hanswer⟩

/-- The root of the tree has the key again after a callback. -/
lemma call_splay_isSplayed (hsplay : self.root.IsSplayed compare key 0) (hstab : callback.Stable) :
    let called := (self.call compare valid_key callback).1
    let splayed := if self.splay_count ≠ called.splay_count then (called.splay compare key).1 else called
    self.SameEntries splayed ∧ splayed.root.IsSplayed compare key 0 := by
  intro called splayed
  have hsame : self.SameEntries called := (call_spec hcmp hok valid_key callback).1
  have hcnts : self.CountsSplays called := call_countsSplays hcmp hok valid_key hstab
  have hok' := hsame.valid hok
  by_cases hcnt : self.splay_count = called.splay_count
  · have heq : splayed = self := (if_neg (by simp [hcnt])).trans (hcnts.eq hcnt.symm)
    rw [heq]
    exact ⟨.refl self, hsplay⟩
  have heq : splayed = (called.splay compare key).1 := if_pos hcnt
  have h0 : (called.splay compare key).2 = 0 := by
    by_contra hne
    obtain ⟨e, hfind, -⟩ := (find_of_isSplayed hcmp hok hsplay).1 rfl
    rw [← hsame.entries_eq, (splay_find hcmp hok' key).2 hne] at hfind
    exact absurd hfind (by simp)
  have hagain := splay_isSplayed compare called key hcmp hok'
  rw [h0] at hagain
  rw [heq]
  exact ⟨hsame.trans (splay_sameEntries compare called key), hagain⟩

lemma update_refines (key : K) {update : V → Callback K V} {if_absent : Option (Callback K V)}
    (hstab : (MapOperation.update key update if_absent).Stable is_null) :
    Refines compare (self.update compare valid_key key update if_absent)
      (reference_step compare valid_key self.root.entries (.update key update if_absent)) := by
  have hsame := splay_sameEntries compare self key
  have hok' := hsame.valid hok
  have hsplay := splay_isSplayed compare self key hcmp hok
  obtain ⟨h0, hne⟩ := splay_find hcmp hok key
  unfold SplayTree.update reference_step
  by_cases hcomp : (self.splay compare key).2 = 0
  · obtain ⟨e, hfind, hval⟩ := h0 hcomp
    obtain ⟨hcalled, hres⟩ := call_spec hcmp hok' valid_key (update e.2)
    obtain ⟨hsame', hsplay'⟩ := call_splay_isSplayed hcmp hok' valid_key (hcomp ▸ hsplay) (hstab.1 e.2)
    obtain ⟨hnew, hents⟩ := replace_value_valid hcmp (hsame'.valid hok') hsplay'
      ((update e.2).result compare valid_key self.root.entries)
    rw [hsame'.entries_eq, hsame.entries_eq] at hents
    rw [hsame.entries_eq] at hres
    simp only [if_pos hcomp, hval, hfind, hcalled.modification_count_eq, ne_eq, not_true_eq_false, if_false, hres]
    exact ⟨hnew, hents, rfl⟩
  · simp only [if_neg hcomp, hne hcomp]
    cases if_absent with
    | none => exact ⟨hok', hsame.entries_eq, rfl⟩
    | some callback =>
      obtain ⟨hnew, hents, hanswer⟩ := add_value_of_spec hcmp hok' valid_key hsplay hcomp (hstab.2 callback rfl) false
      rw [hsame.entries_eq] at hents hanswer
      exact ⟨hnew, hents, hanswer⟩

/-- One operation on a map. -/
lemma step_refines {operation : MapOperation K V} (hstab : operation.Stable is_null) :
    Refines compare (self.step compare valid_key is_null operation)
      (reference_step compare valid_key self.root.entries operation) := by
  cases operation with
  | lookup key =>
    obtain ⟨hsame, -, hres⟩ := get_spec hcmp hok valid_key key
    exact ⟨hsame.valid hok, hsame.entries_eq, congrArg value hres⟩
  | set key value =>
    obtain ⟨hnew, hents⟩ := set_spec hcmp hok key value
    exact ⟨hnew, hents, rfl⟩
  | put_if_absent key if_absent => exact put_if_absent_refines hcmp hok valid_key key hstab
  | update key update if_absent => exact update_refines hcmp hok valid_key is_null key hstab
  | remove key =>
    obtain ⟨hnew, hents, hres⟩ := remove_spec hcmp hok valid_key key
    exact ⟨hnew, hents, congrArg value hres⟩
  | contains_key key =>
    obtain ⟨hsame, -, hres⟩ := contains_key_spec hcmp hok valid_key key
    exact ⟨hsame.valid hok, hsame.entries_eq, congrArg flag hres⟩
  | first_key =>
    obtain ⟨hsame, hres⟩ := first_spec self
    exact ⟨hsame.valid hok, hsame.entries_eq, congrArg key hres⟩
  | last_key =>
    obtain ⟨hsame, hres⟩ := last_spec self
    exact ⟨hsame.valid hok, hsame.entries_eq, congrArg key hres⟩
  | last_key_before key =>
    obtain ⟨hsame, hres⟩ := last_key_before_spec hcmp hok key hstab
    exact ⟨hsame.valid hok, hsame.entries_eq, hres⟩
  | first_key_after key =>
    obtain ⟨hsame, hres⟩ := first_key_after_spec hcmp hok key hstab
    exact ⟨hsame.valid hok, hsame.entries_eq, hres⟩
  | add_all entries =>
    obtain ⟨hnew, hents⟩ := add_all_spec hcmp hok entries
    exact ⟨hnew, hents, rfl⟩
  | copy =>
    obtain ⟨hnew, hents⟩ := add_all_spec hcmp empty_valid self.root.entries
    exact ⟨hnew, hents.trans (foldl_insert_eq hok.sorted), rfl⟩
  | clear => exact ⟨⟨Pairwise.nil, rfl⟩, rfl, rfl⟩

/-- A sequence of operations on a map. -/
lemma run_refines {operations : List (MapOperation K V)}
    (hstab : ∀ operation ∈ operations, operation.Stable is_null) :
    (self.run compare valid_key is_null operations).1.Valid compare ∧
      (self.run compare valid_key is_null operations).1.root.entries =
        (reference_run compare valid_key self.root.entries operations).1 ∧
      (self.run compare valid_key is_null operations).2 =
        (reference_run compare valid_key self.root.entries operations).2 := by
  induction operations generalizing self with
  | nil => exact ⟨hok, rfl, rfl⟩
  | cons operation operations ih =>
    rw [forall_mem_cons] at hstab
    have hstep := step_refines hcmp hok valid_key is_null hstab.1
    obtain ⟨hrun, hents, hans⟩ := ih hstep.valid hstab.2
    rw [hstep.entries_eq] at hents hans
    exact ⟨hrun, hents, congrArg₂ cons hstep.answer_eq hans⟩

end SplayTree
end dart.collection
