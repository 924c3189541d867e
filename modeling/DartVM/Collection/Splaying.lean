import DartVM.Collection.SplayTree

namespace dart.collection
open dart.sorted_map List
variable {K V : Type}

namespace Tree

/-- The entries of the nodes that were linked to the left. -/
def left_entries (lefts : LeftSpine K V) : List (K × V) := lefts.reverse.flatMap fun n => n.1.entries ++ [(n.2.1, n.2.2)]

/-- The entries of the nodes that were linked to the right. -/
def right_entries (rights : RightSpine K V) : List (K × V) := rights.flatMap fun n => (n.1, n.2.1) :: n.2.2.entries

lemma left_entries_cons (n : Tree K V × K × V) (lefts : LeftSpine K V) :
    left_entries (n :: lefts) = left_entries lefts ++ (n.1.entries ++ [(n.2.1, n.2.2)]) := by
  simp [left_entries]

lemma right_entries_cons (n : K × V × Tree K V) (rights : RightSpine K V) :
    right_entries (n :: rights) = (n.1, n.2.1) :: n.2.2.entries ++ right_entries rights := by
  simp [right_entries]

lemma entries_foldl_left (lefts : LeftSpine K V) (t : Tree K V) :
    (lefts.foldl (fun t n => node n.1 n.2.1 n.2.2 t) t).entries = left_entries lefts ++ t.entries := by
  induction lefts generalizing t with
  | nil => rfl
  | cons n lefts ih => simp [ih, entries, left_entries_cons]

lemma entries_foldl_right (rights : RightSpine K V) (t : Tree K V) :
    (rights.foldl (fun t n => node t n.1 n.2.1 n.2.2) t).entries = t.entries ++ right_entries rights := by
  induction rights generalizing t with
  | nil => simp [right_entries]
  | cons n rights ih => simp [ih, entries, right_entries_cons]

/-- The root has the key, or it is a neighbour of the key. -/
def IsSplayed (compare : K → K → Int) (target : K) : Tree K V → Int → Prop
  | leaf, comp => comp = -1
  | node left key _ right, comp =>
    comp = compare key target ∧ (comp < 0 → ∀ e ∈ right.entries, 0 < compare e.1 target) ∧
      (0 < comp → ∀ e ∈ left.entries, compare e.1 target < 0)

variable {compare : K → K → Int} {target : K} {lefts : LeftSpine K V} {rights : RightSpine K V} (left : Tree K V)
  {right : Tree K V} {value : V} {key : K}

lemma assemble_entries (key : K) (value : V) (right : Tree K V) :
    (assemble lefts rights left key value right).entries =
      left_entries lefts ++ (node left key value right).entries ++ right_entries rights := by
  simp [assemble, entries, entries_foldl_left, entries_foldl_right]

/-- The loop ends where there is no node on the side of the key. -/
lemma isSplayed_assemble (hsplit : Split compare target (left_entries lefts) (right_entries rights))
    {left : Tree K V} (hl : 0 < compare key target → left = leaf) (hr : compare key target < 0 → right = leaf) :
    (assemble lefts rights left key value right).IsSplayed compare target (compare key target) := by
  refine ⟨rfl, fun hlt => ?_, fun hgt => ?_⟩
  · rw [entries_foldl_right, hr hlt]
    exact hsplit.gt
  · rw [entries_foldl_left, hl hgt, entries, append_nil]
    exact hsplit.lt

lemma sorted_node {left : Tree K V} (h : Sorted compare (node left key value right).entries) :
    Sorted compare left.entries ∧ Sorted compare right.entries ∧
      (∀ e ∈ left.entries, compare e.1 key < 0) ∧ ∀ e ∈ right.entries, compare key e.1 < 0 := by
  rw [Sorted, entries, pairwise_append, pairwise_cons] at h
  obtain ⟨hl, ⟨hkey, hr⟩, hcross⟩ := h
  exact ⟨hl, hr, fun e he => hcross e he (key, value) (.head _), hkey⟩

variable (t : Tree K V) {comp : Int}

/-- The entries stay in their order. -/
lemma splay_entries (moved : Bool) (lefts : LeftSpine K V) (rights : RightSpine K V) (ht : t ≠ leaf) :
    (t.splay compare target moved lefts rights).1.entries = left_entries lefts ++ t.entries ++ right_entries rights := by
  fun_induction splay compare target t moved lefts rights with
  | case1 => exact absurd rfl ht
  | case2 | case6 | case10 => exact assemble_entries ..
  | case3 | case7 => simp [assemble_entries, entries]
  | case4 _ _ _ _ _ _ _ _ _ _ _ _ _ _ _ ih | case5 _ _ _ _ _ _ _ _ _ _ _ _ ih =>
    rw [ih (by simp)]
    simp [entries, right_entries_cons]
  | case8 _ _ _ _ _ _ _ _ _ _ _ _ _ _ _ _ ih | case9 _ _ _ _ _ _ _ _ _ _ _ _ _ ih =>
    rw [ih (by simp)]
    simp [entries, left_entries_cons]

/-- A splay operation that does not move stops at the root. -/
lemma splay_of_not_moved (moved : Bool) (lefts : LeftSpine K V) (rights : RightSpine K V)
    (h : (t.splay compare target moved lefts rights).2.2 = false) :
    moved = false ∧ (lefts = [] → rights = [] → (t.splay compare target moved lefts rights).1 = t) := by
  fun_induction splay compare target t moved lefts rights with
  | case1 => exact ⟨h, fun _ _ => rfl⟩
  | case2 | case6 | case10 => exact ⟨h, fun hlefts hrights => by rw [hlefts, hrights]; rfl⟩
  | case3 | case7 => exact absurd h (by simp)
  | case4 _ _ _ _ _ _ _ _ _ _ _ _ _ _ _ ih | case5 _ _ _ _ _ _ _ _ _ _ _ _ ih => exact absurd (ih h).1 (by simp)
  | case8 _ _ _ _ _ _ _ _ _ _ _ _ _ _ _ _ ih | case9 _ _ _ _ _ _ _ _ _ _ _ _ _ ih => exact absurd (ih h).1 (by simp)

section
variable (hcmp : TotalPreorder compare)
include hcmp

section
variable (hsplit : Split compare target (left_entries lefts) (right_entries rights))
include hsplit

/-- Nodes that are linked to the right are larger than the key. -/
lemma split_link_right (hkey : 0 < compare key target) (hr : ∀ e ∈ right.entries, compare key e.1 < 0) :
    Split compare target (left_entries lefts) (right_entries ((key, value, right) :: rights)) := by
  refine ⟨hsplit.lt, ?_⟩
  rw [right_entries_cons, cons_append, forall_mem_cons, forall_mem_append]
  exact ⟨hkey, fun e he => hcmp.pos_of_pos_of_lt hkey (hr e he), hsplit.gt⟩

lemma split_link_left {left : Tree K V} (hkey : compare key target < 0) (hl : ∀ e ∈ left.entries, compare e.1 key < 0) :
    Split compare target (left_entries ((left, key, value) :: lefts)) (right_entries rights) := by
  refine ⟨?_, hsplit.gt⟩
  rw [left_entries_cons, forall_mem_append, forall_mem_append, forall_mem_singleton]
  exact ⟨hsplit.lt, fun e he => hcmp.lt_of_lt_of_le (hl e he) (Int.le_of_lt hkey), hkey⟩

end

/-- The loop keeps the smaller entries on the left and the larger ones on the right. -/
lemma splay_isSplayed (t : Tree K V) (moved : Bool) (lefts : LeftSpine K V) (rights : RightSpine K V) (ht : t ≠ leaf)
    (hsort : Sorted compare t.entries) (hsplit : Split compare target (left_entries lefts) (right_entries rights)) :
    (t.splay compare target moved lefts rights).1.IsSplayed compare target
      (t.splay compare target moved lefts rights).2.1 := by
  fun_induction splay compare target t moved lefts rights with
  | case1 => exact absurd rfl ht
  | case2 key _ _ _ _ _ hkey => exact isSplayed_assemble hsplit (fun _ => rfl) fun h => absurd h (by omega)
  | case3 key _ _ _ _ _ _ _ _ _ hkey => exact isSplayed_assemble hsplit (fun _ => rfl) fun h => absurd h (by omega)
  | case4 key value right _ _ _ hkey leftKey leftValue leftRight hl _ _ _ _ ih =>
    obtain ⟨hsortedLeft, -, hltKey, hgtKey⟩ := sorted_node hsort
    obtain ⟨hsortedLeftLeft, -, -, hgtLeft⟩ := sorted_node hsortedLeft
    refine ih (by simp) hsortedLeftLeft (split_link_right hcmp hsplit hl ?_)
    have hlt : compare leftKey key < 0 := hltKey (leftKey, leftValue) (by simp [entries])
    rw [entries, forall_mem_append, forall_mem_cons]
    exact ⟨hgtLeft, hlt, fun e he => hcmp.lt_of_lt_of_le hlt (Int.le_of_lt (hgtKey e he))⟩
  | case5 key value right _ _ _ hkey _ _ _ _ _ ih =>
    obtain ⟨hsortedLeft, -, -, hgtKey⟩ := sorted_node hsort
    exact ih (by simp) hsortedLeft (split_link_right hcmp hsplit hkey hgtKey)
  | case6 | case7 => exact isSplayed_assemble hsplit (fun h => absurd h (by omega)) fun _ => rfl
  | case8 left key value _ _ _ _ hkey rightLeft rightKey rightValue hr _ _ _ _ ih =>
    obtain ⟨-, hsortedRight, hltKey, hgtKey⟩ := sorted_node hsort
    obtain ⟨-, hsortedRightRight, hltRight, -⟩ := sorted_node hsortedRight
    refine ih (by simp) hsortedRightRight (split_link_left hcmp hsplit hr ?_)
    have hgt : compare key rightKey < 0 := hgtKey (rightKey, rightValue) (by simp [entries])
    rw [entries, forall_mem_append, forall_mem_cons]
    exact ⟨fun e he => hcmp.lt_of_lt_of_le (hltKey e he) (Int.le_of_lt hgt), hgt, hltRight⟩
  | case9 left key value _ _ _ _ hkey _ _ _ _ _ ih =>
    obtain ⟨-, hsortedRight, hltKey, -⟩ := sorted_node hsort
    exact ih (by simp) hsortedRight (split_link_left hcmp hsplit hkey hltKey)
  | case10 => exact isSplayed_assemble hsplit (fun h => absurd h (by omega)) fun h => absurd h (by omega)

end

/-- The root has the key. -/
lemma IsSplayed.exists_of_eq_zero {t : Tree K V} (h : t.IsSplayed compare target comp) (hcomp : comp = 0) :
    ∃ left key value right, t = node left key value right ∧ compare key target = 0 := by
  cases t with
  | leaf => exact absurd (hcomp.symm.trans h) (by decide)
  | node left key value right => exact ⟨left, key, value, right, rfl, h.1.symm.trans hcomp⟩

/-- The root is a neighbour of the key. -/
lemma IsSplayed.exists_of_ne_zero (hcmp : TotalPreorder compare) {t : Tree K V}
    (h : t.IsSplayed compare target comp) (hsort : Sorted compare t.entries) (hcomp : comp ≠ 0) :
    t = leaf ∨ ∃ left key value right, t = node left key value right ∧
      (comp < 0 ∧ Split compare target (left.entries ++ [(key, value)]) right.entries ∨
        0 < comp ∧ Split compare target left.entries ((key, value) :: right.entries)) := by
  cases t with
  | leaf => exact .inl rfl
  | node left key value right =>
    obtain ⟨hkey, hr, hl⟩ := h
    obtain ⟨-, -, hltKey, hgtKey⟩ := sorted_node hsort
    refine .inr ⟨left, key, value, right, rfl, ?_⟩
    obtain hlt | hgt : comp < 0 ∨ 0 < comp := by omega
    · have hkeylt : compare key target < 0 := hkey ▸ hlt
      refine .inl ⟨hlt, ⟨?_, hr hlt⟩⟩
      rw [forall_mem_append, forall_mem_singleton]
      exact ⟨fun e he => hcmp.lt_of_lt_of_le (hltKey e he) (Int.le_of_lt hkeylt), hkeylt⟩
    have hkeygt : 0 < compare key target := hkey ▸ hgt
    refine .inr ⟨hgt, ⟨hl hgt, ?_⟩⟩
    rw [forall_mem_cons]
    exact ⟨hkeygt, fun e he => hcmp.pos_of_pos_of_lt hkeygt (hgtKey e he)⟩

lemma splay_min_entries (key : K) (value : V) (right : Tree K V) :
    (splay_min left key value right).entries = (node left key value right).entries := by
  induction left generalizing key value right with
  | leaf => rfl
  | node leftLeft leftKey leftValue leftRight ih => simp [splay_min, ih, entries]

lemma splay_max_entries (key : K) (value : V) (right : Tree K V) :
    (splay_max left key value right).entries = (node left key value right).entries := by
  induction right generalizing left key value with
  | leaf => rfl
  | node rightLeft rightKey rightValue rightRight _ ih => simp [splay_max, ih, entries]

/-- The new root has no left child. -/
lemma splay_min_eq (key : K) (value : V) (right : Tree K V) :
    ∃ k v r, splay_min left key value right = node leaf k v r := by
  induction left generalizing key value right with
  | leaf => exact ⟨key, value, right, rfl⟩
  | node leftLeft leftKey leftValue leftRight ih => exact ih ..

/-- The new root has no right child. -/
lemma splay_max_eq (key : K) (value : V) (right : Tree K V) :
    ∃ l k v, splay_max left key value right = node l k v leaf := by
  induction right generalizing left key value with
  | leaf => exact ⟨left, key, value, rfl⟩
  | node rightLeft rightKey rightValue rightRight _ ih => exact ih ..

/-- The root of the left part has no right child, so that the right part fits there. -/
lemma without_root_entries (left right : Tree K V) : (without_root left right).entries = left.entries ++ right.entries := by
  cases left with
  | leaf => rfl
  | node leftLeft leftKey leftValue leftRight =>
    obtain ⟨l, k, v, hmax⟩ := splay_max_eq leftLeft leftKey leftValue leftRight
    have hents := splay_max_entries leftLeft leftKey leftValue leftRight
    rw [hmax] at hents
    rw [without_root, hmax, ← hents]
    simp [entries]

lemma leftmost_key_eq : t.leftmost_key = t.entries.head?.map Prod.fst := by
  induction t with
  | leaf => rfl
  | node left key value right ih => cases hl : left.entries <;> simp [leftmost_key, entries, ih, hl]

lemma rightmost_key_eq : t.rightmost_key = t.entries.getLast?.map Prod.fst := by
  induction t with
  | leaf => rfl
  | node left key value right _ ih =>
    rw [rightmost_key, ih, entries, getLast?_append, getLast?_cons]
    cases right.entries.getLast? <;> rfl

lemma copy_node_entries : t.copy_node.entries = t.entries.map fun e => (e.1, ()) := by
  induction t with
  | leaf => rfl
  | node left key value right ihl ihr => simp [copy_node, entries, ihl, ihr]

end Tree

namespace SplayTree
variable {compare : K → K → Int} {self other third : SplayTree K V}

/-- The tree is a search tree with `count` nodes. -/
structure Valid (compare : K → K → Int) (tree : SplayTree K V) : Prop where
  sorted : Sorted compare tree.root.entries
  count_eq : tree.count = tree.root.entries.length

lemma empty_valid : (empty : SplayTree K V).Valid compare := ⟨Pairwise.nil, rfl⟩

/-- Another tree has the same entries and no modifications. -/
structure SameEntries (tree other : SplayTree K V) : Prop where
  entries_eq : other.root.entries = tree.root.entries
  count_eq : other.count = tree.count
  modification_count_eq : other.modification_count = tree.modification_count

lemma SameEntries.refl (self : SplayTree K V) : self.SameEntries self := ⟨rfl, rfl, rfl⟩

lemma SameEntries.trans (h : self.SameEntries other) (h' : other.SameEntries third) : self.SameEntries third :=
  ⟨h'.entries_eq.trans h.entries_eq, h'.count_eq.trans h.count_eq,
    h'.modification_count_eq.trans h.modification_count_eq⟩

lemma SameEntries.valid (h : self.SameEntries other) (hok : self.Valid compare) : other.Valid compare := by
  refine ⟨?_, ?_⟩
  · rw [h.entries_eq]
    exact hok.sorted
  · rw [h.entries_eq, h.count_eq]
    exact hok.count_eq

/-- The counter of splay operations changes when the tree does. -/
structure CountsSplays (tree other : SplayTree K V) : Prop where
  le : tree.splay_count ≤ other.splay_count
  eq : other.splay_count = tree.splay_count → other = tree

lemma CountsSplays.refl (self : SplayTree K V) : self.CountsSplays self := ⟨le_rfl, fun _ => rfl⟩

lemma CountsSplays.trans (h : self.CountsSplays other) (h' : other.CountsSplays third) : self.CountsSplays third := by
  obtain ⟨hle, heq⟩ := h
  obtain ⟨hle', heq'⟩ := h'
  refine ⟨Nat.le_trans hle hle', fun hcnt => ?_⟩
  have hthird := heq' (by omega)
  rw [hthird] at hcnt ⊢
  exact heq hcnt

variable (compare) (self) (key : K)

lemma splay_leaf (hroot : self.root = .leaf) : self.splay compare key = (self, -1) := by
  rw [splay, hroot]

lemma splay_node {left : Tree K V} {k : K} {value : V} {right : Tree K V} (hroot : self.root = .node left k value right) :
    self.splay compare key =
      ({ self with
          root := (self.root.splay compare key false [] []).1
          splay_count :=
            if (self.root.splay compare key false [] []).2.2 then self.splay_count + 1 else self.splay_count },
        (self.root.splay compare key false [] []).2.1) := by
  rw [splay, hroot]

lemma splay_sameEntries : self.SameEntries (self.splay compare key).1 := by
  cases hroot : self.root with
  | leaf =>
    rw [splay_leaf compare self key hroot]
    exact .refl self
  | node left k value right =>
    rw [splay_node compare self key hroot]
    have hents : (self.root.splay compare key false [] []).1.entries = _ :=
      self.root.splay_entries false [] [] (by rw [hroot]; simp)
    exact ⟨by simpa [Tree.left_entries, Tree.right_entries] using hents, rfl, rfl⟩

lemma splay_countsSplays : self.CountsSplays (self.splay compare key).1 := by
  cases hroot : self.root with
  | leaf =>
    rw [splay_leaf compare self key hroot]
    exact .refl self
  | node left k value right =>
    rw [splay_node compare self key hroot]
    refine ⟨?_, fun hcnt => ?_⟩
    · simp only
      split_ifs <;> omega
    · have hmov : (self.root.splay compare key false [] []).2.2 = false := by
        by_contra hmov
        simp [hmov] at hcnt
      simp only [hmov, (self.root.splay_of_not_moved false [] [] hmov).2 rfl rfl]
      rfl

lemma splay_isSplayed (hcmp : TotalPreorder compare) (hok : self.Valid compare) :
    (self.splay compare key).1.root.IsSplayed compare key (self.splay compare key).2 := by
  cases hroot : self.root with
  | leaf =>
    rw [splay_leaf compare self key hroot]
    simp only [hroot]
    rfl
  | node left k value right =>
    rw [splay_node compare self key hroot]
    exact self.root.splay_isSplayed hcmp false [] [] (by rw [hroot]; simp) hok.sorted ⟨by simp [Tree.left_entries],
      by simp [Tree.right_entries]⟩

end SplayTree
end dart.collection
