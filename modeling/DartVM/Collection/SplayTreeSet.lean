import DartVM.Collection.Refinement

namespace dart.collection
open dart.sorted_map List
variable {E : Type}

/-- The operations of a set. -/
inductive SetOperation (E : Type) where
  | add (element : E)
  | add_all (elements : List E)
  | contains (element : E)
  | lookup (element : E)
  | remove (element : E)
  | remove_all (elements : List E)
  | retain_all (elements : List E)
  | first
  | last
  | to_set
  | clear

namespace SplayTree
variable (compare : E → E → Int) (valid_key : E → Bool)

section
variable (self : SplayTree E Unit)

/-- The key of the root. -/
def root_key : Option E :=
  match self.root with
  | .leaf => none
  | .node _ key _ _ => some key

/-- `_add`. -/
def add (element : E) : SplayTree E Unit × Bool :=
  let (self, comp) := self.splay compare element
  if comp = 0 then (self, false) else (self.add_new_root element () comp, true)

def lookup (element : E) : SplayTree E Unit × Option E :=
  if valid_key element then
    let (self, comp) := self.splay compare element
    (self, if comp ≠ 0 then none else self.root_key)
  else (self, none)

def remove_all (elements : List E) : SplayTree E Unit :=
  elements.foldl (fun self element => if valid_key element then (self.remove_node compare element).1 else self) self

/-- The loop of `retainAll`, with the set that is built. -/
def retain_elements (self retain_set : SplayTree E Unit) : List E → SplayTree E Unit × SplayTree E Unit
  | [] => (self, retain_set)
  | element :: elements =>
    let (self, found) := self.lookup compare valid_key element
    match found with
    | some key => self.retain_elements (retain_set.add compare key).1 elements
    | none => self.retain_elements retain_set elements

def retain_all (elements : List E) : SplayTree E Unit :=
  let (self, retain_set) := self.retain_elements compare valid_key empty elements
  if retain_set.count ≠ self.count then
    { self with
      root := retain_set.root
      count := retain_set.count
      modification_count := self.modification_count + 1 }
  else self

/-- `_clone`. -/
def clone : SplayTree E Unit := ⟨self.root.copy_node, self.count, 0, 0⟩

/-- An operation on a set. -/
def set_step : SetOperation E → SplayTree E Unit × Answer E Unit
  | .add element => let (self, added) := self.add compare element; (self, .flag added)
  | .add_all elements => (elements.foldl (fun self element => (self.add compare element).1) self, .unit)
  | .contains element => let (self, found) := self.contains_key compare valid_key element; (self, .flag found)
  | .lookup element => let (self, found) := self.lookup compare valid_key element; (self, .key found)
  | .remove element =>
    if valid_key element then
      let (self, removed) := self.remove_node compare element
      (self, .flag removed.isSome)
    else (self, .flag false)
  | .remove_all elements => (self.remove_all compare valid_key elements, .unit)
  | .retain_all elements => (self.retain_all compare valid_key elements, .unit)
  | .first => if self.count = 0 then (self, .state_error) else let (self, key) := self.first; (self, .key key)
  | .last => if self.count = 0 then (self, .state_error) else let (self, key) := self.last; (self, .key key)
  | .to_set => (self.clone, .unit)
  | .clear => (self.clear, .unit)

end

def set_run (self : SplayTree E Unit) : List (SetOperation E) → SplayTree E Unit × List (Answer E Unit)
  | [] => (self, [])
  | operation :: operations =>
    let (self, answer) := self.set_step compare valid_key operation
    let (self, answers) := self.set_run operations
    (self, answer :: answers)

end SplayTree

section
variable (compare : E → E → Int) (valid_key : E → Bool)

/-- Whether some element is equal to the key of an entry. -/
def retained (elements : List E) (e : E × Unit) : Bool :=
  elements.any fun element => valid_key element && compare e.1 element = 0

/-- An operation on a sorted set. -/
def reference_set_step (entries : List (E × Unit)) : SetOperation E → List (E × Unit) × Answer E Unit
  | .add element => (insert compare element () entries, .flag (find compare element entries).isNone)
  | .add_all elements => (elements.foldl (fun entries element => insert compare element () entries) entries, .unit)
  | .contains element => (entries, .flag (valid_key element && (find compare element entries).isSome))
  | .lookup element =>
    (entries, .key (if valid_key element then (find compare element entries).map Prod.fst else none))
  | .remove element =>
    if valid_key element then (erase compare element entries, .flag (find compare element entries).isSome)
    else (entries, .flag false)
  | .remove_all elements =>
    (elements.foldl (fun entries element => if valid_key element then erase compare element entries else entries) entries,
      .unit)
  | .retain_all elements => (entries.filter (retained compare valid_key elements), .unit)
  | .first => (entries, if entries.isEmpty then .state_error else .key (entries.head?.map Prod.fst))
  | .last => (entries, if entries.isEmpty then .state_error else .key (entries.getLast?.map Prod.fst))
  | .to_set => (entries, .unit)
  | .clear => ([], .unit)

def reference_set_run (entries : List (E × Unit)) : List (SetOperation E) → List (E × Unit) × List (Answer E Unit)
  | [] => (entries, [])
  | operation :: operations =>
    let (entries, answer) := reference_set_step compare valid_key entries operation
    let (entries, answers) := reference_set_run entries operations
    (entries, answer :: answers)

end

namespace SplayTree
variable {compare : E → E → Int} {self retain_set : SplayTree E Unit}

section
variable (hcmp : TotalPreorder compare)
include hcmp

lemma add_spec (hok : self.Valid compare) (element : E) : (self.add compare element).1.Valid compare ∧
      (self.add compare element).1.root.entries = insert compare element () self.root.entries ∧
      (self.add compare element).2 = (find compare element self.root.entries).isNone := by
  have hsame := splay_sameEntries compare self element
  have hok' := hsame.valid hok
  have hsplay := splay_isSplayed compare self element hcmp hok
  rw [add, ← hsame.entries_eq]
  obtain ⟨h0, left, k, v, right, hroot, hk, hsplit⟩ | ⟨hne, a, b, hents, hsplit, hnew⟩ :=
    isSplayed_cases hcmp hok' hsplay
  · simp only [if_pos h0]
    rw [hroot, Tree.entries, hsplit.insert_cons hk, hsplit.find_cons hk]
    exact ⟨hok', rfl, rfl⟩
  obtain ⟨hadded, hadded_entries⟩ := add_new_root_valid hcmp hok' hsplay hne ()
  simp only [if_neg hne]
  exact ⟨hadded, hadded_entries, by rw [hents, hsplit.find_append]; rfl⟩

lemma lookup_spec (hok : self.Valid compare) (valid_key : E → Bool) (element : E) :
    self.SameEntries (self.lookup compare valid_key element).1 ∧ (self.lookup compare valid_key element).2 =
      if valid_key element then (find compare element self.root.entries).map Prod.fst else none := by
  rw [lookup]
  split_ifs with hkey
  · have hsame := splay_sameEntries compare self element
    refine ⟨hsame, ?_⟩
    rw [← hsame.entries_eq]
    obtain ⟨h0, left, k, v, right, hroot, hk, hsplit⟩ | ⟨hne, a, b, hents, hsplit, -⟩ :=
      isSplayed_cases hcmp (hsame.valid hok) (splay_isSplayed compare self element hcmp hok)
    · simp [h0, root_key, hroot, Tree.entries, hsplit.find_cons (e := (k, v)) hk]
    · simp [hne, hents, hsplit.find_append]
  · exact ⟨.refl self, rfl⟩

/-- The elements of a set after an element of a larger set was added. -/
lemma mem_insert_iff {entries larger : List (E × Unit)} (hsort : Sorted compare larger)
    (hents : Sorted compare entries) (hsub : ∀ e ∈ entries, e ∈ larger) {x : E × Unit} (hx : x ∈ larger)
    (e : E × Unit) : e ∈ insert compare x.1 () entries ↔ e ∈ entries ∨ e = x := by
  obtain ⟨front, y, rest, rfl, hy, hsplit⟩ | ⟨front, rest, rfl, hsplit⟩ := hents.exists_split hcmp x.1
  · obtain rfl : y = x := hsort.eq_of_compare hcmp (hsub y (by simp)) hx hy (hcmp.refl x.1)
    rw [hsplit.insert_cons hy, mem_append, mem_cons]
    exact ⟨.inl, fun h => h.elim id fun h => .inr (.inl h)⟩
  rw [hsplit.insert_append, mem_append, mem_cons, mem_append]
  exact ⟨fun h => h.elim (fun h => .inl (.inl h)) fun h => h.elim .inr fun h => .inl (.inr h),
    fun h => h.elim (fun h => h.imp id .inr) fun h => .inr (.inl h)⟩

variable (hok : self.Valid compare)
include hok

/-- The set that is built has the entries that some element is equal to. -/
lemma retain_elements_spec (hretain : retain_set.Valid compare)
    (hsub : ∀ e ∈ retain_set.root.entries, e ∈ self.root.entries) (valid_key : E → Bool) (elements : List E) :
    self.SameEntries (self.retain_elements compare valid_key retain_set elements).1 ∧
      (self.retain_elements compare valid_key retain_set elements).2.Valid compare ∧
      ∀ e, e ∈ (self.retain_elements compare valid_key retain_set elements).2.root.entries ↔
        e ∈ retain_set.root.entries ∨ e ∈ self.root.entries ∧ retained compare valid_key elements e = true := by
  induction elements generalizing self retain_set with
  | nil => exact ⟨.refl self, hretain, fun e => by simp [retain_elements, retained]⟩
  | cons element elements ih =>
    obtain ⟨hsame, hfound⟩ := lookup_spec hcmp hok valid_key element
    have hok' := hsame.valid hok
    have hcons (e : E × Unit) : retained compare valid_key (element :: elements) e =
        ((valid_key element && compare e.1 element = 0) || retained compare valid_key elements e) := by
      simp [retained]
    cases hlook : (self.lookup compare valid_key element).2 with
    | none =>
      have hnot : ∀ e ∈ self.root.entries, (valid_key element && decide (compare e.1 element = 0)) = false := by
        intro e he
        rw [hlook] at hfound
        by_cases hkey : valid_key element = true
        · rw [if_pos hkey, eq_comm, Option.map_eq_none_iff, find, find?_eq_none] at hfound
          simpa [hkey] using hfound e he
        · simp [hkey]
      obtain ⟨hsame', hretain', hmem⟩ := ih hok' hretain (by rwa [hsame.entries_eq])
      rw [retain_elements]
      simp only [hlook]
      refine ⟨hsame.trans hsame', hretain', fun e => ?_⟩
      rw [hmem, hsame.entries_eq]
      refine or_congr_right (and_congr_right fun he => ?_)
      rw [hcons, hnot e he, Bool.false_or]
    | some key =>
      have hx : ((key, ()) : E × Unit) ∈ self.root.entries ∧ valid_key element = true ∧ compare key element = 0 := by
        rw [hlook] at hfound
        by_cases hkey : valid_key element = true
        · rw [if_pos hkey, eq_comm, Option.map_eq_some_iff] at hfound
          obtain ⟨x, hfind, rfl⟩ := hfound
          exact ⟨mem_of_find?_eq_some hfind, hkey, by simpa using find?_some hfind⟩
        · exact absurd hfound (by simp [hkey])
      obtain ⟨hadded, hadded_entries, -⟩ := add_spec hcmp hretain key
      have hmem_added (e : E × Unit) : e ∈ (retain_set.add compare key).1.root.entries ↔
          e ∈ retain_set.root.entries ∨ e = (key, ()) := by
        rw [hadded_entries]
        exact mem_insert_iff (x := (key, ())) hcmp hok.sorted hretain.sorted hsub hx.1 e
      obtain ⟨hsame', hretain', hmem⟩ := ih hok' hadded (fun e he => by
        rw [hsame.entries_eq]
        exact ((hmem_added e).mp he).elim (hsub e) fun h => h ▸ hx.1)
      rw [retain_elements]
      simp only [hlook]
      refine ⟨hsame.trans hsame', hretain', fun e => ?_⟩
      rw [hmem, hsame.entries_eq, hmem_added, hcons, or_assoc, Bool.or_eq_true, and_or_left]
      refine or_congr_right (or_congr_left ?_)
      rw [hx.2.1, Bool.true_and, decide_eq_true_eq]
      constructor
      · rintro rfl
        exact ⟨hx.1, hx.2.2⟩
      · rintro ⟨he, hcomp⟩
        exact hok.sorted.eq_of_compare hcmp he hx.1 hcomp hx.2.2

variable (valid_key : E → Bool)

lemma retain_all_spec (elements : List E) : (self.retain_all compare valid_key elements).Valid compare ∧
      (self.retain_all compare valid_key elements).root.entries =
        self.root.entries.filter (retained compare valid_key elements) := by
  obtain ⟨hsame, hretain, hmem⟩ := retain_elements_spec hcmp hok empty_valid (by simp [empty, Tree.entries])
    valid_key elements
  have hfilter : (self.retain_elements compare valid_key empty elements).2.root.entries =
      self.root.entries.filter (retained compare valid_key elements) := by
    refine hretain.sorted.ext hcmp (hok.sorted.sublist filter_sublist) fun e => ?_
    rw [hmem]
    simp [empty, Tree.entries]
  rw [retain_all]
  by_cases hcnt : (self.retain_elements compare valid_key empty elements).2.count =
      (self.retain_elements compare valid_key empty elements).1.count
  · -- As many entries are retained as there are.
    simp only [hcnt, ne_eq, not_true_eq_false, if_false]
    refine ⟨hsame.valid hok, ?_⟩
    rw [hretain.count_eq, hfilter, (hsame.valid hok).count_eq, hsame.entries_eq] at hcnt
    rw [hsame.entries_eq, filter_sublist.eq_of_length hcnt]
  · simp only [hcnt, ne_eq, not_false_eq_true, if_true]
    exact ⟨⟨hretain.sorted, hretain.count_eq⟩, hfilter⟩

lemma remove_all_spec (elements : List E) : (self.remove_all compare valid_key elements).Valid compare ∧
      (self.remove_all compare valid_key elements).root.entries = elements.foldl
        (fun entries element => if valid_key element then erase compare element entries else entries) self.root.entries := by
  refine foldl_spec (fun self hok element => ?_) hok elements
  split_ifs with hkey
  · obtain ⟨hrem, hents, -⟩ := remove_node_spec hcmp hok element
    exact ⟨hrem, hents⟩
  · exact ⟨hok, rfl⟩

/-- One operation on a set. -/
lemma set_step_refines (operation : SetOperation E) : Refines compare (self.set_step compare valid_key operation)
      (reference_set_step compare valid_key self.root.entries operation) := by
  cases operation with
  | add element =>
    obtain ⟨hadded, hents, hanswer⟩ := add_spec hcmp hok element
    exact ⟨hadded, hents, congrArg Answer.flag hanswer⟩
  | add_all elements =>
    obtain ⟨hadded, hents⟩ := foldl_spec (g := fun entries element => insert compare element () entries)
      (fun self hok element =>
        ⟨(add_spec hcmp hok element).1, (add_spec hcmp hok element).2.1⟩) hok elements
    exact ⟨hadded, hents, rfl⟩
  | contains element =>
    obtain ⟨hsame, -, hres⟩ := contains_key_spec hcmp hok valid_key element
    exact ⟨hsame.valid hok, hsame.entries_eq, congrArg Answer.flag hres⟩
  | lookup element =>
    obtain ⟨hsame, hres⟩ := lookup_spec hcmp hok valid_key element
    exact ⟨hsame.valid hok, hsame.entries_eq, congrArg Answer.key hres⟩
  | remove element =>
    rw [set_step, reference_set_step]
    split_ifs with hkey
    · obtain ⟨hrem, hents, hres⟩ := remove_node_spec hcmp hok element
      exact ⟨hrem, hents, congrArg (fun e => Answer.flag e.isSome) hres⟩
    · exact ⟨hok, rfl, rfl⟩
  | remove_all elements =>
    obtain ⟨hrem, hents⟩ := remove_all_spec hcmp hok valid_key elements
    exact ⟨hrem, hents, rfl⟩
  | retain_all elements =>
    obtain ⟨hretained, hents⟩ := retain_all_spec hcmp hok valid_key elements
    exact ⟨hretained, hents, rfl⟩
  | first =>
    simp only [set_step, reference_set_step, hok.count_eq, length_eq_zero_iff, List.isEmpty_iff]
    split_ifs with hnil
    · exact ⟨hok, rfl, rfl⟩
    · obtain ⟨hsame, hres⟩ := first_spec self
      exact ⟨hsame.valid hok, hsame.entries_eq, congrArg Answer.key hres⟩
  | last =>
    simp only [set_step, reference_set_step, hok.count_eq, length_eq_zero_iff, List.isEmpty_iff]
    split_ifs with hnil
    · exact ⟨hok, rfl, rfl⟩
    · obtain ⟨hsame, hres⟩ := last_spec self
      exact ⟨hsame.valid hok, hsame.entries_eq, congrArg Answer.key hres⟩
  | to_set =>
    have hents : self.root.copy_node.entries = self.root.entries := by
      simp [Tree.copy_node_entries]
    exact ⟨⟨hents ▸ hok.sorted, hents ▸ hok.count_eq⟩, hents, rfl⟩
  | clear => exact ⟨⟨Pairwise.nil, rfl⟩, rfl, rfl⟩

/-- A sequence of operations on a set. -/
lemma set_run_refines (operations : List (SetOperation E)) :
    (self.set_run compare valid_key operations).1.Valid compare ∧
      (self.set_run compare valid_key operations).1.root.entries =
        (reference_set_run compare valid_key self.root.entries operations).1 ∧
      (self.set_run compare valid_key operations).2 =
        (reference_set_run compare valid_key self.root.entries operations).2 := by
  induction operations generalizing self with
  | nil => exact ⟨hok, rfl, rfl⟩
  | cons operation operations ih =>
    have hstep := set_step_refines hcmp hok valid_key operation
    obtain ⟨hrun, hents, hans⟩ := ih hstep.valid
    rw [hstep.entries_eq] at hents hans
    exact ⟨hrun, hents, congrArg₂ cons hstep.answer_eq hans⟩

end

/-- Splay trees are sorted maps and sets, when no callback calls `firstKey` or `lastKey` and the neighbours of `null`
are not asked for. A splay operation leaves
the key at the root, or a neighbour of it. -/
theorem splay_tree_refines {K V E : Type} :
    (∀ (compare : K → K → Int) (self : SplayTree K V) (key : K), TotalPreorder compare → self.Valid compare →
      self.SameEntries (self.splay compare key).1 ∧ (self.splay compare key).1.Valid compare ∧
        (self.splay compare key).1.root.IsSplayed compare key (self.splay compare key).2) ∧
    (∀ (compare : K → K → Int) (valid_key is_null : K → Bool) (operations : List (MapOperation K V)),
      TotalPreorder compare → (∀ operation ∈ operations, operation.Stable is_null) →
      ((empty : SplayTree K V).run compare valid_key is_null operations).1.Valid compare ∧
        (((empty : SplayTree K V).run compare valid_key is_null operations).1.root.entries,
          ((empty : SplayTree K V).run compare valid_key is_null operations).2) =
          reference_run compare valid_key [] operations) ∧
    ∀ (compare : E → E → Int) (valid_key : E → Bool) (operations : List (SetOperation E)), TotalPreorder compare →
      ((empty : SplayTree E Unit).set_run compare valid_key operations).1.Valid compare ∧
        (((empty : SplayTree E Unit).set_run compare valid_key operations).1.root.entries,
          ((empty : SplayTree E Unit).set_run compare valid_key operations).2) =
          reference_set_run compare valid_key [] operations := by
  refine ⟨fun compare self key hcmp hok => ?_, fun compare valid_key is_null operations hcmp hstab => ?_,
    fun compare valid_key operations hcmp => ?_⟩
  · have hsame := splay_sameEntries compare self key
    exact ⟨hsame, hsame.valid hok, splay_isSplayed compare self key hcmp hok⟩
  · obtain ⟨hrun, hents, hans⟩ := run_refines hcmp empty_valid valid_key is_null hstab
    exact ⟨hrun, Prod.ext hents hans⟩
  · obtain ⟨hrun, hents, hans⟩ := set_run_refines hcmp empty_valid valid_key operations
    exact ⟨hrun, Prod.ext hents hans⟩

lemma sub_totalPreorder : TotalPreorder fun a b : Int => a - b := ⟨fun a b => by omega, fun a b c hab hbc => by omega⟩

/-- A callback that looks another key up. -/
theorem splay_tree_refines_lookup : let compare : Int → Int → Int := fun a b => a - b
    let operations : List (MapOperation Int Nat) :=
      [.set 1 10, .set 2 20, .put_if_absent 3 (.lookup 1 fun value => .done (value.getD 0 + 20))]
    TotalPreorder compare ∧ (empty : SplayTree Int Nat).Valid compare ∧
      (empty : SplayTree Int Nat).SameEntries ((empty : SplayTree Int Nat).splay compare 1).1 ∧
      (∀ operation ∈ operations, operation.Stable fun _ => false) ∧
      ((empty : SplayTree Int Nat).run compare (fun _ => true) (fun _ => false) operations).1.Valid compare ∧
      ((empty : SplayTree Int Nat).run compare (fun _ => true) (fun _ => false) operations).1.root.entries = [(1, 10), (2, 20), (3, 30)] ∧
      ((empty : SplayTree Int Unit).set_run compare (fun _ => true) [.add 2, .add 1]).1.Valid compare := by
  intro compare operations
  obtain ⟨hsplay, hmap, hset⟩ := splay_tree_refines
  have hstab : ∀ operation ∈ operations, operation.Stable fun _ => false := by
    simp [operations, MapOperation.Stable, Callback.Stable]
  exact ⟨sub_totalPreorder, empty_valid, (hsplay compare empty 1 sub_totalPreorder empty_valid).1, hstab,
    (hmap compare (fun _ => true) _ operations sub_totalPreorder hstab).1, rfl,
    (hset compare (fun _ => true) [.add 2, .add 1] sub_totalPreorder).1⟩

/-- A callback that calls `firstKey` makes `putIfAbsent` put its entry into the wrong place and `update` change the
value of another key. -/
theorem first_key_in_callback_breaks_map : let compare : Int → Int → Int := fun a b => a - b
    let added := (empty : SplayTree Int Nat).run compare (fun _ => true) (fun _ => false)
      [.set 1 10, .set 2 20, .put_if_absent 3 (.first_key fun _ => .done 30)]
    let updated := (empty : SplayTree Int Nat).run compare (fun _ => true) (fun _ => false)
      [.set 1 10, .set 2 20, .update 2 (fun value => .first_key fun _ => .done (value + 1)) none]
    added.1.root.entries = [(1, 10), (3, 30), (2, 20)] ∧ ¬added.1.Valid compare ∧
      (added.1.get compare (fun _ => true) 2).2 = none ∧ updated.1.root.entries = [(1, 21), (2, 20)] := by
  refine ⟨rfl, fun hok => ?_, rfl, rfl⟩
  have hsort : Pairwise (fun a b : Int × Nat => a.1 - b.1 < 0) [(1, 10), (3, 30), (2, 20)] := hok.sorted
  exact absurd hsort (by decide)

end SplayTree
end dart.collection
