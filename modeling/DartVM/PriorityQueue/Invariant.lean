import DartVM.Lib.BinaryHeap
import DartVM.Lib.ListSet
import DartVM.PriorityQueue.Queue

namespace dart.priority_queue
open binary_heap List
variable {V : Type} {entries : List (Entry V)} {entry : Entry V}

/-- The priority at an offset of a heap. -/
def priorityAt (entries : List (Entry V)) (offset : Nat) : Int := (entries[offset]?.map Entry.priority).getD 0

lemma priorityAt_eq {offset : Nat} (h : entries[offset]? = some entry) :
    priorityAt entries offset = entry.priority := by
  rw [priorityAt, h]
  rfl

lemma priorityAt_set {offset : Nat} (hoff : offset < entries.length) (entry : Entry V) :
    priorityAt (entries.set offset entry) = Function.update (priorityAt entries) offset entry.priority := by
  funext i
  by_cases hi : i = offset
  · subst hi
    rw [Function.update_self, priorityAt_eq (getElem?_set_self hoff)]
  · rw [Function.update_of_ne hi, priorityAt, getElem?_set_ne (Ne.symm hi), priorityAt]

namespace PriorityQueue
variable {self queue queue' : PriorityQueue V} {offset : Nat} {a b : Entry V}

lemma entry_at_eq (h : self.min_heap[offset]? = some entry) : self.entry_at offset = .ok entry := by
  rw [entry_at, h]

lemma exists_entry (h : offset < self.size) : ∃ entry, self.min_heap[offset]? = some entry :=
  ⟨_, getElem?_eq_getElem h⟩

variable [DecidableEq V]

/-- The map sends each stored value to its offset, and has no other keys. -/
def Synced (self : PriorityQueue V) : Prop :=
  ∀ value offset, self.find_map_entry value = some offset ↔
    ∃ entry, self.min_heap[offset]? = some entry ∧ entry.value = value

/-- The invariant of the class. -/
structure Valid (queue : PriorityQueue V) : Prop where
  synced : queue.Synced
  ordered : Ordered (priorityAt queue.min_heap) queue.size
  size_le : queue.size ≤ queue.min_heap_size
  minimum_size_le : kMinimumSize ≤ queue.min_heap_size

section
variable (h : self.Synced)
include h

lemma Synced.find (hent : self.min_heap[offset]? = some entry) :
    self.find_map_entry entry.value = some offset := (h entry.value offset).mpr ⟨entry, hent, rfl⟩

variable {i j : Nat}

lemma Synced.value_injective (ha : self.min_heap[i]? = some a)
    (hb : self.min_heap[j]? = some b) (heq : a.value = b.value) : i = j := by
  have hi := h.find ha
  rw [heq, h.find hb] at hi
  exact (Option.some.inj hi).symm

/-- The values of the entries are unique. -/
lemma Synced.nodup : (self.min_heap.map Entry.value).Nodup := by
  rw [nodup_iff_getElem?_ne_getElem?]
  intro i j hij hj heq
  rw [length_map] at hj
  obtain ⟨a, ha⟩ : ∃ a, self.min_heap[i]? = some a := exists_entry (Nat.lt_trans hij hj)
  obtain ⟨b, hb⟩ : ∃ b, self.min_heap[j]? = some b := exists_entry hj
  rw [getElem?_map, getElem?_map, ha, hb] at heq
  have := h.value_injective ha hb (Option.some.inj heq)
  omega

lemma Synced.contains_value_iff {value : V} :
    self.contains_value value = true ↔ ∃ entry ∈ self.min_heap, entry.value = value := by
  rw [contains_value, Option.isSome_iff_exists]
  constructor
  · rintro ⟨offset, hoff⟩
    obtain ⟨entry, hent, hval⟩ := (h value offset).mp hoff
    exact ⟨entry, mem_of_getElem? hent, hval⟩
  · rintro ⟨entry, hmem, rfl⟩
    obtain ⟨offset, hoff⟩ := mem_iff_getElem?.mp hmem
    exact ⟨offset, h.find hoff⟩

/-- The assertion at the end of `RemoveByValue`. -/
lemma Synced.card_keys : self.hashmap.keys.card = self.size := by
  have hkeys : self.hashmap.keys = (self.min_heap.map Entry.value).toFinset := by
    ext value
    have hmem : self.contains_value value = true ↔ _ := h.contains_value_iff
    rw [contains_value, find_map_entry, Finmap.lookup_isSome] at hmem
    rw [Finmap.mem_keys, hmem, mem_toFinset, mem_map]
  rw [hkeys, toFinset_card_of_nodup h.nodup, length_map, size]

end

/-- The same entries in another order, and the map in agreement with it. -/
structure Rearranges (queue queue' : PriorityQueue V) : Prop where
  synced : queue'.Synced
  perm : queue'.min_heap.Perm queue.min_heap
  min_heap_size : queue'.min_heap_size = queue.min_heap_size

lemma Synced.rearranges (h : queue.Synced) : queue.Rearranges queue := ⟨h, .refl _, rfl⟩

lemma Rearranges.trans {queue'' : PriorityQueue V} (h : queue.Rearranges queue') (h' : queue'.Rearranges queue'') :
    queue.Rearranges queue'' := ⟨h'.synced, h'.perm.trans h.perm, h'.min_heap_size.trans h.min_heap_size⟩

lemma Rearranges.size_eq (h : queue.Rearranges queue') : queue'.size = queue.size := h.perm.length_eq

lemma find_map_entry_set (value key : V) (offset : Nat) : (self.set_map_entry value offset).find_map_entry key =
      if key = value then some offset else self.find_map_entry key := by
  unfold set_map_entry find_map_entry
  by_cases h : key = value
  · rw [if_pos h, h, Finmap.lookup_insert]
  · rw [if_neg h, Finmap.lookup_insert_of_ne _ h]

omit [DecidableEq V] in
lemma getElem?_swap (ha : entries[i]? = some a) (hb : entries[j]? = some b)
    (k : Nat) : ((entries.set i b).set j a)[k]? = if k = j then some a else if k = i then some b else entries[k]? := by
  simp only [List.getElem?_set, length_set]
  grind

lemma swap_spec (h : self.Synced) (hi : i < self.size) (hj : j < self.size) (hij : i ≠ j) : ∃ queue, self.swap i j =
    .ok queue ∧ self.Rearranges queue ∧ priorityAt queue.min_heap = priorityAt self.min_heap ∘ Equiv.swap i j := by
  obtain ⟨a, ha⟩ := exists_entry hi
  obtain ⟨b, hb⟩ := exists_entry hj
  have hok : self.swap i j = .ok
      (({ self with min_heap := (self.min_heap.set i b).set j a }.set_map_entry b.value i).set_map_entry a.value j) := by
    rw [swap, entry_at_eq ha, ok_bind, entry_at_eq hb, ok_bind, pure_eq_ok]
  refine ⟨_, hok, ⟨?_, ?_, rfl⟩, ?_⟩
  · intro value offset
    rw [find_map_entry_set, find_map_entry_set]
    have hold := h value offset
    have hfa := h.find ha
    have hfb := h.find hb
    change (if value = a.value then some j else if value = b.value then some i else self.find_map_entry value) = _ ↔
      ∃ entry, ((self.min_heap.set i b).set j a)[offset]? = some entry ∧ entry.value = value
    rw [getElem?_swap ha hb]
    grind
  · obtain ⟨hi', rfl⟩ := List.getElem?_eq_some_iff.mp ha
    obtain ⟨hj', rfl⟩ := List.getElem?_eq_some_iff.mp hb
    exact set_set_perm hi' hj'
  · funext k
    change priorityAt ((self.min_heap.set i b).set j a) k = _
    rw [Function.comp_apply, priorityAt, getElem?_swap ha hb, Equiv.swap_apply_def, priorityAt]
    grind

/-- `BubbleUp` restores the order if only the entry at the offset may be too small. -/
lemma bubble_up_spec : ∀ (fuel : Nat) (self : PriorityQueue V) (offset : Nat), offset < fuel → offset < self.size →
    self.Synced → UpReady (priorityAt self.min_heap) self.size offset →
    ∃ queue, self.bubble_up fuel offset = .ok queue ∧ self.Rearranges queue ∧
      Ordered (priorityAt queue.min_heap) queue.size := by
  intro fuel
  induction fuel with
  | zero => exact fun _ _ hfuel => absurd hfuel (Nat.not_lt_zero _)
  | succ fuel ih =>
    intro self offset hfuel hoff hsync hready
    unfold bubble_up
    by_cases h0 : offset = 0
    · exact ⟨self, if_pos h0, hsync.rearranges, hready.ordered (by omega)⟩
    have hpos : 0 < offset := Nat.pos_of_ne_zero h0
    have hlt : parent offset < offset := parent_lt hpos
    obtain ⟨above, habove⟩ := exists_entry (Nat.lt_trans hlt hoff)
    obtain ⟨entry, hent⟩ := exists_entry hoff
    simp only [if_neg h0, div_eq_parent, entry_at_eq habove, entry_at_eq hent, ok_bind]
    by_cases hswap : above.priority > entry.priority
    · obtain ⟨queue, hqueue, hmov, hprios⟩ := swap_spec hsync (Nat.lt_trans hlt hoff) hoff (Nat.ne_of_lt hlt)
      have hready' : UpReady (priorityAt queue.min_heap) queue.size (parent offset) := by
        rw [hprios, hmov.size_eq]
        refine hready.swap hpos ?_
        rw [priorityAt_eq hent, priorityAt_eq habove]
        exact hswap.le
      obtain ⟨result, hres, hmov', hord⟩ := ih queue (parent offset) (by omega)
        (by rw [hmov.size_eq]; omega) hmov.synced hready'
      exact ⟨result, by rw [if_pos hswap, hqueue, ok_bind]; exact hres, hmov.trans hmov', hord⟩
    · have hord : Ordered (priorityAt self.min_heap) self.size := by
        refine hready.ordered fun _ => ?_
        rw [priorityAt_eq hent, priorityAt_eq habove]
        omega
      rw [if_neg hswap]
      exact ih self (parent offset) (by omega) (by omega) hsync (hord.upReady _)

omit [DecidableEq V] in
/-- The smallest of an entry and its children. -/
lemma smallest_index_spec (hl : 2 * offset + 1 < self.size) :
    ∃ smallest, self.smallest_index offset = .ok smallest ∧ (∀ i, 0 < i → i < self.size → parent i = offset →
        priorityAt self.min_heap smallest ≤ priorityAt self.min_heap i) ∧
      (smallest = offset ∨ 0 < smallest ∧ smallest < self.size ∧ parent smallest = offset ∧
        priorityAt self.min_heap smallest < priorityAt self.min_heap offset) := by
  have hent (i : Nat) (hi : i < self.size) : ∃ entry, self.entry_at i = .ok entry ∧
      entry.priority = priorityAt self.min_heap i := by
    obtain ⟨entry, hent⟩ := exists_entry hi
    exact ⟨entry, entry_at_eq hent, (priorityAt_eq hent).symm⟩
  obtain ⟨left, hleftOk, hleftPriority⟩ := hent (2 * offset + 1) hl
  obtain ⟨entry, hentryOk, hprio⟩ := hent offset (by omega)
  have hchild (i : Nat) (hpos : 0 < i) (hpar : parent i = offset) : i = 2 * offset + 1 ∨ i = 2 * offset + 1 + 1 :=
    (parent_eq_iff hpos).mp hpar
  have hparentLeft : parent (2 * offset + 1) = offset := (parent_eq_iff (by omega)).mpr (.inl rfl)
  have hparentRight : parent (2 * offset + 1 + 1) = offset := (parent_eq_iff (by omega)).mpr (.inr rfl)
  unfold smallest_index
  simp only [hleftOk, hentryOk, ok_bind, pure_eq_ok]
  -- the winner among the entry and its left child
  obtain ⟨first, hfst, hfirstLe, hfirstCases⟩ : ∃ first,
      (if left.priority < entry.priority then 2 * offset + 1 else offset) = first ∧
        priorityAt self.min_heap first ≤ priorityAt self.min_heap (2 * offset + 1) ∧
        (first = offset ∨ first = 2 * offset + 1 ∧
          priorityAt self.min_heap (2 * offset + 1) < priorityAt self.min_heap offset) := by
    split
    · exact ⟨_, rfl, le_rfl, .inr ⟨rfl, by omega⟩⟩
    · exact ⟨_, rfl, by omega, .inl rfl⟩
  rw [hfst]
  by_cases hr : 2 * offset + 1 + 1 < self.size
  · obtain ⟨right, hrightOk, hrightPriority⟩ := hent _ hr
    obtain ⟨winner, hwinnerOk, hwinnerPriority⟩ := hent first (by omega)
    simp only [if_pos hr, hrightOk, hwinnerOk, ok_bind]
    split
    · refine ⟨_, rfl, ?_, .inr ⟨by omega, hr, hparentRight, ?_⟩⟩
      · intro i hpos hi hpar
        rcases hchild i hpos hpar with rfl | rfl <;> omega
      · rcases hfirstCases with rfl | ⟨rfl, hlt⟩ <;> omega
    · refine ⟨_, rfl, ?_, ?_⟩
      · intro i hpos hi hpar
        rcases hchild i hpos hpar with rfl | rfl <;> omega
      · rcases hfirstCases with rfl | ⟨rfl, hlt⟩
        · exact .inl rfl
        · exact .inr ⟨by omega, hl, hparentLeft, hlt⟩
  · rw [if_neg hr]
    refine ⟨_, rfl, ?_, ?_⟩
    · intro i hpos hi hpar
      rcases hchild i hpos hpar with rfl | rfl
      · exact hfirstLe
      · omega
    · rcases hfirstCases with rfl | ⟨rfl, hlt⟩
      · exact .inl rfl
      · exact .inr ⟨by omega, hl, hparentLeft, hlt⟩

/-- `BubbleDown` restores the order if only the entry at the offset may be too large. -/
lemma bubble_down_spec : ∀ (fuel : Nat) (self : PriorityQueue V) (offset : Nat), self.size ≤ fuel + offset →
    offset < self.size → self.Synced → DownReady (priorityAt self.min_heap) self.size offset →
    ∃ queue, self.bubble_down fuel offset = .ok queue ∧ self.Rearranges queue ∧
      Ordered (priorityAt queue.min_heap) queue.size := by
  intro fuel
  induction fuel with
  | zero => exact fun _ _ hfuel hoff => absurd hoff (by omega)
  | succ fuel ih =>
    intro self offset hfuel hoff hsync hready
    unfold bubble_down
    by_cases hl : 2 * offset + 1 < self.size
    · obtain ⟨smallest, hok, hmin, hcases⟩ := smallest_index_spec hl
      simp only [not_true_eq_false, hl, if_false, hok, ok_bind]
      by_cases heq : offset = smallest
      · subst heq
        exact ⟨self, if_pos rfl, hsync.rearranges, hready.ordered hmin⟩
      obtain heq' | ⟨hpos, hsmallest, hpar, hlt⟩ := hcases
      · exact absurd heq'.symm heq
      have hdown := parent_lt hpos
      obtain ⟨queue, hqueue, hmov, hprios⟩ := swap_spec hsync hoff hsmallest heq
      have hready' : DownReady (priorityAt queue.min_heap) queue.size smallest := by
        rw [hprios, hmov.size_eq]
        exact hready.swap hpos hsmallest hpar hlt.le hmin
      obtain ⟨result, hres, hmov', hord⟩ := ih queue smallest
        (by rw [hmov.size_eq]; omega) (by rwa [hmov.size_eq]) hmov.synced hready'
      exact ⟨result, by rw [if_neg heq, hqueue]; exact hres, hmov.trans hmov', hord⟩
    · refine ⟨self, if_pos hl, hsync.rearranges, hready.ordered fun i hpos hi hpar => ?_⟩
      have := (parent_eq_iff hpos).mp hpar
      omega

end PriorityQueue
end dart.priority_queue
