import DartVM.PriorityQueue.Invariant

namespace dart.priority_queue
open binary_heap int64 List Function Nat
variable {V : Type} {entries : List (Entry V)} {i : Nat}

lemma priorityAt_append (hi : i < entries.length) (entry : Entry V) :
    priorityAt (entries ++ [entry]) i = priorityAt entries i := by
  rw [priorityAt, getElem?_append_left hi, priorityAt]

lemma priorityAt_dropLast (hi : i < entries.dropLast.length) :
    priorityAt entries.dropLast i = priorityAt entries i := by
  rw [length_dropLast] at hi
  rw [priorityAt, getElem?_dropLast, if_pos hi, priorityAt]

namespace PriorityQueue
variable {self : PriorityQueue V} {offset : Nat} {entry last : Entry V}

lemma resize_spec {new_min_heap_size : Nat} (hsize : self.size < new_min_heap_size)
    (hne : new_min_heap_size ≠ self.min_heap_size) :
    self.resize new_min_heap_size = .ok { self with min_heap_size := new_min_heap_size } := by
  rw [resize, check_bind hsize, check_bind hne, pure_eq_ok]

section
variable (hsize : self.size ≤ self.min_heap_size) (hmin : kMinimumSize ≤ self.min_heap_size)
include hsize hmin

lemma grow_spec : ∃ min_heap_size, self.grow = .ok { self with min_heap_size } ∧ self.size < min_heap_size ∧
    kMinimumSize ≤ min_heap_size := by
  have hpos : 16 ≤ self.min_heap_size := hmin
  unfold grow
  split
  · have hdouble : self.min_heap_size <<< 1 = 2 * self.min_heap_size := by
      omega
    exact ⟨_, resize_spec (by omega) (by omega), by omega, le_trans hmin (by omega)⟩
  · exact ⟨self.min_heap_size, rfl, by omega, hmin⟩

lemma shrink_spec : ∃ min_heap_size, self.shrink = .ok { self with min_heap_size } ∧ self.size ≤ min_heap_size ∧
    kMinimumSize ≤ min_heap_size := by
  have hpos : 16 ≤ self.min_heap_size := hmin
  unfold shrink
  split
  next hle => exact ⟨_, resize_spec (by omega) (by omega), by omega, hle.2⟩
  next => exact ⟨self.min_heap_size, rfl, hsize, hmin⟩

end

lemma priorityAt_replaced (hoff : offset + 1 < self.size) (i : Nat) (hi : i + 1 < self.size) :
    priorityAt (self.min_heap.dropLast.set offset last) i =
      update (priorityAt self.min_heap) offset last.priority i := by
  unfold size at hoff hi
  have hlen : self.min_heap.dropLast.length = _ := length_dropLast
  rw [priorityAt_set (by omega)]
  by_cases heq : i = offset
  · rw [heq, update_self, update_self]
  · rw [update_of_ne heq, update_of_ne heq, priorityAt_dropLast (by omega)]

lemma replaced_perm (hoff : offset + 1 < self.size) (hent : self.min_heap[offset]? = some entry)
    (hlast : self.min_heap[self.size - 1]? = some last) :
    (entry :: self.min_heap.dropLast.set offset last).Perm self.min_heap := by
  unfold size at hoff hlast
  have hhole : self.min_heap.dropLast[offset]? = some entry := by
    rw [getElem?_dropLast, if_pos (by omega), hent]
  have hsplit : self.min_heap.dropLast ++ [last] = self.min_heap := by
    rw [← getLast?_eq_getElem?] at hlast
    exact dropLast_append_getLast? last hlast
  calc (entry :: self.min_heap.dropLast.set offset last).Perm (last :: self.min_heap.dropLast) :=
        list_set.set_perm hhole last
    _ |>.Perm (self.min_heap.dropLast ++ [last]) := (perm_append_singleton _ _).symm
    _ |>.Perm self.min_heap := by rw [hsplit]

variable [DecidableEq V] {value : V}

/-- After `Set` behind the last entry, only that entry may be out of order. -/
lemma Valid.set_spec (h : self.Valid) (hroom : self.size < self.min_heap_size)
    (hnew : self.contains_value entry.value = false) :
    ∃ queue, self.set self.size entry = .ok queue ∧ queue.Synced ∧ queue.min_heap = self.min_heap ++ [entry] ∧
      queue.min_heap_size = self.min_heap_size ∧ UpReady (priorityAt queue.min_heap) queue.size self.size := by
  refine ⟨({ self with min_heap := self.min_heap ++ [entry] }.set_map_entry entry.value self.size),
    by rw [set, if_pos hroom, if_pos rfl], ?_, rfl, rfl, ?_⟩
  · intro value offset
    rw [find_map_entry_set]
    change (if value = entry.value then some self.min_heap.length else self.find_map_entry value) = some offset ↔
      ∃ e, (self.min_heap ++ [entry])[offset]? = some e ∧ e.value = value
    have hold := h.synced value offset
    by_cases hval : value = entry.value
    · subst hval
      rw [if_pos rfl, Option.some.injEq]
      constructor
      · rintro rfl
        exact ⟨entry, getElem?_concat_length, rfl⟩
      · rintro ⟨e, he, heq⟩
        by_contra hne
        have hmem : e ∈ self.min_heap := by
          rw [getElem?_append] at he
          split at he
          · exact mem_of_getElem? he
          · rw [getElem?_singleton, if_neg (by omega)] at he
            cases he
        have hin := h.synced.contains_value_iff.mpr ⟨e, hmem, heq⟩
        rw [hnew] at hin
        cases hin
    · rw [if_neg hval, hold]
      constructor
      · rintro ⟨e, he, heq⟩
        exact ⟨e, by rw [List.getElem?_append_left (List.getElem?_eq_some_iff.mp he).1, he], heq⟩
      · rintro ⟨e, he, heq⟩
        rw [getElem?_append] at he
        split at he
        · exact ⟨e, he, heq⟩
        · rw [getElem?_singleton] at he
          split at he
          · cases he
            exact absurd heq.symm hval
          · cases he
  · change UpReady (priorityAt (self.min_heap ++ [entry])) (self.min_heap ++ [entry]).length self.size
    rw [length_append]
    exact h.ordered.push fun i hi => priorityAt_append hi entry

lemma Valid.insert_spec (h : self.Valid) (priority : Int) (hnew : self.contains_value value = false) :
    ∃ queue, self.insert priority value = .ok queue ∧ queue.Valid ∧
      queue.min_heap.Perm (⟨priority, value⟩ :: self.min_heap) := by
  obtain ⟨min_heap_size, hgrow, hroom, hmin⟩ := grow_spec h.size_le h.minimum_size_le
  have hgrown : { self with min_heap_size }.Valid := ⟨h.synced, h.ordered, hroom.le, hmin⟩
  obtain ⟨placed, hplaced, hsync, hheap, hcap, hready⟩ :=
    hgrown.set_spec hroom (show contains_value _ (Entry.value ⟨priority, value⟩) = false from hnew)
  have hplacedSize : placed.size = self.size + 1 := by
    rw [size, hheap, length_append]
    rfl
  obtain ⟨queue, hqueue, hmov, hord⟩ :=
    bubble_up_spec (self.size + 1) placed self.size (by omega) (by omega) hsync hready
  refine ⟨queue, ?_, ⟨hmov.synced, hord, ?_, ?_⟩, ?_⟩
  · rw [insert, hnew, Bool.not_false, check_true, ok_bind, hgrow, ok_bind]
    change (set _ (size { self with min_heap_size }) _ >>= _) = _
    rw [hplaced, ok_bind, hqueue]
  · rw [hmov.size_eq, hmov.min_heap_size, hcap, hplacedSize]
    exact hroom
  · rw [hmov.min_heap_size, hcap]
    exact hmin
  · refine hmov.perm.trans ?_
    rw [hheap]
    exact perm_append_singleton _ _

lemma find_map_entry_erase (value key : V) : { self with hashmap := self.hashmap.erase value }.find_map_entry key =
      if key = value then none else self.find_map_entry key := by
  unfold find_map_entry
  by_cases h : key = value
  · rw [if_pos h, h, Finmap.lookup_erase]
  · rw [if_neg h, Finmap.lookup_erase_ne h]

lemma remove_map_entry_eq (h : (self.find_map_entry value).isSome) :
    self.remove_map_entry value = .ok { self with hashmap := self.hashmap.erase value } := by
  rw [remove_map_entry, contains_value, h, check_true, ok_bind, pure_eq_ok]

section
variable (h : self.Synced)
include h

lemma Synced.remove_last (hlast : self.min_heap[self.size - 1]? = some last) :
    ∃ queue, { self with min_heap := self.min_heap.dropLast }.remove_map_entry last.value = .ok queue ∧
      queue.Synced ∧ queue.min_heap = self.min_heap.dropLast ∧ queue.min_heap_size = self.min_heap_size := by
  have hfound := h.find hlast
  refine ⟨_, remove_map_entry_eq (Option.isSome_of_eq_some hfound), ?_, rfl, rfl⟩
  intro key i
  rw [find_map_entry_erase]
  change (if key = last.value then none else self.find_map_entry key) = some i ↔
    ∃ e, self.min_heap.dropLast[i]? = some e ∧ e.value = key
  have hold := h key i
  unfold size at hlast hfound
  grind

/-- `Replace` fills the hole with the last entry. -/
lemma Synced.replace_spec (hoff : offset + 1 < self.size) (hent : self.min_heap[offset]? = some entry)
    (hlast : self.min_heap[self.size - 1]? = some last) :
    ∃ queue, { self with min_heap := self.min_heap.dropLast }.replace offset last = .ok queue ∧ queue.Synced ∧
      queue.min_heap = self.min_heap.dropLast.set offset last ∧ queue.min_heap_size = self.min_heap_size := by
  have hfound := h.find hent
  have hlastFound := h.find hlast
  have hhole : self.min_heap.dropLast[offset]? = some entry := by
    unfold size at hoff
    rw [getElem?_dropLast, if_pos (by omega), hent]
  have hpres : ({ self with min_heap := self.min_heap.dropLast }.find_map_entry entry.value).isSome :=
    Option.isSome_of_eq_some hfound
  have hok : { self with min_heap := self.min_heap.dropLast }.replace offset last = .ok
      ⟨self.min_heap.dropLast.set offset last, self.min_heap_size,
        (self.hashmap.erase entry.value).insert last.value offset⟩ := by
    unfold replace
    rw [entry_at_eq hhole, ok_bind, remove_map_entry_eq hpres, ok_bind, pure_eq_ok]
    rfl
  refine ⟨_, hok, ?_, rfl, rfl⟩
  intro key i
  have hfind : find_map_entry
      ⟨self.min_heap.dropLast.set offset last, self.min_heap_size,
        (self.hashmap.erase entry.value).insert last.value offset⟩ key =
      if key = last.value then some offset else if key = entry.value then none else self.find_map_entry key := by
    rw [← find_map_entry_erase entry.value key]
    exact @find_map_entry_set _ { self with hashmap := self.hashmap.erase entry.value } _ last.value key offset
  have hold := h key i
  unfold size at hoff hlast hlastFound
  grind

end

/-- The last entry may take the place of the one at the offset. -/
def SafeToRemove (self : PriorityQueue V) (offset : Nat) : Prop :=
  0 < offset → priorityAt self.min_heap ((offset - 1) / 2) ≤ priorityAt self.min_heap (self.size - 1)

/-- Whether `RemoveByValue` keeps the heap order. -/
def RemovalSafe (self : PriorityQueue V) (value : V) : Prop :=
  ∀ offset, self.find_map_entry value = some offset → self.SafeToRemove offset

lemma bubble_down_eq_self (fuel : Nat)
    (hle : ∀ i, 0 < i → i < self.size → parent i = offset → priorityAt self.min_heap offset ≤ priorityAt self.min_heap i) :
    self.bubble_down (fuel + 1) offset = .ok self := by
  unfold bubble_down
  by_cases hl : 2 * offset + 1 < self.size
  · obtain ⟨smallest, hok, -, hcases⟩ := smallest_index_spec hl
    simp only [not_true_eq_false, hl, if_false, hok, ok_bind]
    obtain rfl | ⟨hpos, hsmallest, hpar, hlt⟩ := hcases
    · exact if_pos rfl
    · have := hle smallest hpos hsmallest hpar
      omega
  · exact if_pos hl

section
variable (h : self.Valid)
include h

lemma Valid.shrink_valid : ∃ queue, self.shrink = .ok queue ∧ queue.Valid ∧ queue.min_heap = self.min_heap := by
  obtain ⟨min_heap_size, hshrink, hroom, hmin⟩ := shrink_spec h.size_le h.minimum_size_le
  exact ⟨_, hshrink, ⟨h.synced, h.ordered, hroom, hmin⟩, rfl⟩

lemma Valid.remove_at_last (hent : self.min_heap[self.size - 1]? = some entry) :
    ∃ queue, self.remove_at (self.size - 1) = .ok queue ∧ queue.Valid ∧
      (entry :: queue.min_heap).Perm self.min_heap := by
  have hlt : self.size - 1 < self.size := (List.getElem?_eq_some_iff.mp hent).1
  have hsize : self.min_heap.dropLast.length = self.size - 1 := length_dropLast
  obtain ⟨shorter, hshorter, hsync, hheap, hcap⟩ := h.synced.remove_last hent
  have hshorterSize : shorter.size = self.size - 1 := by rw [size, hheap, hsize]
  have hok : shorter.Valid := by
    refine ⟨hsync, ?_, ?_, ?_⟩
    · rw [hheap, hshorterSize]
      exact (h.ordered.mono (sub_le _ 1)).congr fun i hi => priorityAt_dropLast (by omega)
    · rw [hshorterSize, hcap]
      exact le_trans (sub_le _ 1) h.size_le
    · rw [hcap]
      exact h.minimum_size_le
  obtain ⟨queue, hshrink, hqueue, hqueueHeap⟩ := hok.shrink_valid
  refine ⟨queue, ?_, hqueue, ?_⟩
  · rw [remove_at, check_bind hlt, entry_at_eq hent, ok_bind]
    simp only [size, hsize, if_true, hshorter, ok_bind]
    exact hshrink
  · unfold size at hent
    rw [← getLast?_eq_getElem?] at hent
    rw [hqueueHeap, hheap]
    refine (perm_append_singleton _ _).symm.trans ?_
    rw [dropLast_append_getLast? entry hent]

/-- `RemoveAt` before the last entry is `Replace`, `BubbleDown` and the shrinking. -/
lemma Valid.remove_at_inner (hoff : offset + 1 < self.size) (hent : self.min_heap[offset]? = some entry)
    (hlast : self.min_heap[self.size - 1]? = some last) :
    ∃ replaced : PriorityQueue V, replaced.Synced ∧ replaced.min_heap = self.min_heap.dropLast.set offset last ∧
      replaced.size = self.size - 1 ∧ replaced.min_heap_size = self.min_heap_size ∧
      self.remove_at offset = (replaced.bubble_down (self.size - 1) offset >>= shrink) := by
  have hsize : self.min_heap.dropLast.length = self.size - 1 := length_dropLast
  obtain ⟨replaced, hreplaced, hsync, hheap, hcap⟩ := h.synced.replace_spec hoff hent hlast
  have hreplacedSize : replaced.size = self.size - 1 := by rw [size, hheap, length_set, hsize]
  refine ⟨replaced, hsync, hheap, hreplacedSize, hcap, ?_⟩
  rw [remove_at, decide_eq_true (by omega : offset < self.size), check_true, entry_at_eq hlast, ok_bind]
  have hne : offset ≠ size { self with min_heap := self.min_heap.dropLast } := by
    change offset ≠ self.min_heap.dropLast.length
    omega
  simp [if_neg hne, hreplaced, hreplacedSize]

/-- `RemoveAt` keeps the invariant if the last entry may take the place of the removed one. -/
lemma Valid.remove_at_spec (hent : self.min_heap[offset]? = some entry) (hsafe : self.SafeToRemove offset) :
    ∃ queue, self.remove_at offset = .ok queue ∧ queue.Valid ∧ (entry :: queue.min_heap).Perm self.min_heap := by
  have hlt : offset < self.size := (List.getElem?_eq_some_iff.mp hent).1
  by_cases hinner : offset + 1 < self.size
  · obtain ⟨last, hlast⟩ : ∃ last, self.min_heap[self.size - 1]? = some last := exists_entry (by omega)
    obtain ⟨replaced, hsync, hheap, hsize, hcap, hremove⟩ := h.remove_at_inner hinner hent hlast
    have hready : DownReady (priorityAt replaced.min_heap) replaced.size offset := by
      rw [hheap, hsize]
      refine DownReady.congr ((h.ordered.mono (sub_le _ 1)).update_downReady fun hpos => ?_) fun i hi =>
        priorityAt_replaced hinner i (by omega)
      rw [← priorityAt_eq hlast]
      exact hsafe hpos
    obtain ⟨settled, hsettled, hmov, hord⟩ :=
      bubble_down_spec (self.size - 1) replaced offset (by omega) (by omega) hsync hready
    have hok : settled.Valid := by
      refine ⟨hmov.synced, hord, ?_, ?_⟩
      · rw [hmov.size_eq, hmov.min_heap_size, hsize, hcap]
        exact le_trans (sub_le _ 1) h.size_le
      · rw [hmov.min_heap_size, hcap]
        exact h.minimum_size_le
    obtain ⟨queue, hshrink, hqueue, hqueueHeap⟩ := hok.shrink_valid
    refine ⟨queue, ?_, hqueue, ?_⟩
    · rw [hremove, hsettled, ok_bind, hshrink]
    · rw [hqueueHeap]
      refine (hmov.perm.cons entry).trans ?_
      rw [hheap]
      exact replaced_perm hinner hent hlast
  · obtain rfl : offset = self.size - 1 := by omega
    exact h.remove_at_last hent

/-- Otherwise `BubbleDown` does nothing, and the last entry stays below a greater one. -/
lemma Valid.safe_of_remove_at {queue : PriorityQueue V} (hent : self.min_heap[offset]? = some entry)
    (hok : self.remove_at offset = .ok queue) (hord : Ordered (priorityAt queue.min_heap) queue.size) :
    self.SafeToRemove offset := by
  intro hpos
  have hlt : offset < self.size := (List.getElem?_eq_some_iff.mp hent).1
  have hpar := h.ordered offset hpos hlt
  have hup := parent_lt hpos
  rw [div_eq_parent]
  by_contra hunsafe
  have hinner : offset + 1 < self.size := by
    by_contra hlastOffset
    obtain rfl : offset = self.size - 1 := by omega
    exact hunsafe hpar
  obtain ⟨last, hlast⟩ : ∃ last, self.min_heap[self.size - 1]? = some last := exists_entry (by omega)
  obtain ⟨replaced, -, hheap, hsize, hcap, hremove⟩ := h.remove_at_inner hinner hent hlast
  have hprio (i : Nat) (hi : i + 1 < self.size) : priorityAt replaced.min_heap i =
      update (priorityAt self.min_heap) offset last.priority i := by
    rw [hheap]
    exact priorityAt_replaced hinner i hi
  have hhole : priorityAt replaced.min_heap offset < priorityAt self.min_heap (parent offset) := by
    rw [hprio offset hinner, update_self, ← priorityAt_eq hlast]
    omega
  have hstays : replaced.bubble_down (self.size - 1) offset = .ok replaced := by
    have hfuel : self.size - 1 = self.size - 2 + 1 := by omega
    rw [hfuel]
    refine bubble_down_eq_self _ fun i hi hsizeLt hchild => ?_
    have hdown := parent_lt hi
    have hgrand := h.ordered.grand hpos hi (by omega) hchild
    rw [hprio i (by omega), update_of_ne (by omega)]
    omega
  have hcapacityLe : replaced.size ≤ replaced.min_heap_size := by
    rw [hsize, hcap]
    exact le_trans (sub_le _ 1) h.size_le
  obtain ⟨min_heap_size, hshrink, -, -⟩ := shrink_spec hcapacityLe (by rw [hcap]; exact h.minimum_size_le)
  rw [hremove, hstays, ok_bind, hshrink] at hok
  cases hok
  have hle : priorityAt replaced.min_heap (parent offset) ≤ priorityAt replaced.min_heap offset :=
    hord offset hpos (by change offset < replaced.size; omega)
  rw [hprio (parent offset) (by omega), update_of_ne (by omega)] at hle
  omega

end

variable (h : self.Valid) (hent : self.min_heap[offset]? = some entry) (priority : Int)
include h hent

/-- Replacing the priority of an entry keeps its value where the map expects it. -/
lemma Valid.changed_synced : Synced { self with min_heap := self.min_heap.set offset { entry with priority } } := by
  have hlt : offset < self.min_heap.length := (List.getElem?_eq_some_iff.mp hent).1
  intro value i
  change self.find_map_entry value = some i ↔
    ∃ e, (self.min_heap.set offset { entry with priority })[i]? = some e ∧ e.value = value
  rw [h.synced value i, getElem?_set]
  by_cases heq : offset = i
  · subst heq
    rw [if_pos hlt, hent]
    simp
  · rw [if_neg heq]

variable (hfits : ∀ other ∈ self.min_heap, Fits (priority - other.priority))
include hfits

/-- The difference is only computed below the root. -/
lemma Valid.restore_order_spec :
    ∃ queue, restore_order { self with min_heap := self.min_heap.set offset { entry with priority } } offset = .ok queue ∧
      Rearranges { self with min_heap := self.min_heap.set offset { entry with priority } } queue ∧
      Ordered (priorityAt queue.min_heap) queue.size := by
  have hlt : offset < self.min_heap.length := (List.getElem?_eq_some_iff.mp hent).1
  have hsync := h.changed_synced hent priority
  have hkeys := priorityAt_set hlt { entry with priority }
  generalize hchg : { self with min_heap := self.min_heap.set offset { entry with priority } } = changed at hsync ⊢
  have hheap : changed.min_heap = self.min_heap.set offset { entry with priority } := by rw [← hchg]
  have hsize : changed.size = self.size := by rw [size, hheap, length_set, size]
  rw [← hheap] at hkeys
  have hdown (habove : 0 < offset → priorityAt self.min_heap (parent offset) ≤ priority) :
      ∃ queue, changed.bubble_down changed.size offset = .ok queue ∧ changed.Rearranges queue ∧
        Ordered (priorityAt queue.min_heap) queue.size := by
    refine bubble_down_spec _ changed offset (by omega) (by rwa [hsize]) hsync ?_
    rw [hkeys, hsize]
    exact h.ordered.update_downReady habove
  unfold restore_order
  by_cases h0 : offset = 0
  · rw [if_pos h0]
    exact hdown fun hpos => absurd h0 (ne_of_gt hpos)
  have hpos : 0 < offset := pos_of_ne_zero h0
  have hup := parent_lt hpos
  obtain ⟨above, habove⟩ : ∃ above, self.min_heap[parent offset]? = some above := exists_entry (lt_trans hup hlt)
  have habovePriority := priorityAt_eq habove
  have hle : above.priority ≤ entry.priority := by
    rw [← habovePriority, ← priorityAt_eq hent]
    exact h.ordered offset hpos hlt
  have hself : changed.entry_at offset = .ok { entry with priority } := by
    refine entry_at_eq ?_
    rw [hheap, getElem?_set_self hlt]
  have hother : changed.entry_at (parent offset) = .ok above := by
    refine entry_at_eq ?_
    rw [hheap, getElem?_set_ne (by omega), habove]
  have hdiff := hfits above (mem_of_getElem? habove)
  simp only [if_neg h0, div_eq_parent, hself, hother, ok_bind, hdiff.checked_eq, hdiff.toInt_ofInt]
  by_cases hneg : priority - above.priority < 0
  · rw [if_pos hneg]
    refine bubble_up_spec _ changed offset (by omega) (by rwa [hsize]) hsync ?_
    rw [hkeys, hsize]
    refine h.ordered.update_upReady ?_
    rw [priorityAt_eq hent]
    change priority ≤ entry.priority
    omega
  rw [if_neg hneg]
  by_cases hgt : priority - above.priority > 0
  · rw [if_pos hgt]
    exact hdown fun _ => by omega
  rw [if_neg hgt]
  -- the entry has the priority of its parent, which is at most those of its children
  refine ⟨changed, rfl, hsync.rearranges, ?_⟩
  rw [hkeys, hsize]
  refine (h.ordered.update_downReady fun _ => ?_).ordered fun i hi hiSize hchild => ?_
  · change _ ≤ priority
    omega
  · have hbelow := parent_lt hi
    have hgrand := h.ordered.grand hpos hi hiSize hchild
    rw [update_self, update_of_ne (by omega)]
    change priority ≤ _
    omega

/-- `InsertOrChangePriority` of a value of the queue. -/
lemma Valid.change_priority_spec : ∃ queue, self.insert_or_change_priority priority entry.value = .ok (false, queue) ∧
    queue.Valid ∧ (entry :: queue.min_heap).Perm (⟨priority, entry.value⟩ :: self.min_heap) := by
  have hlt : offset < self.size := (List.getElem?_eq_some_iff.mp hent).1
  obtain ⟨queue, hqueue, hmov, hord⟩ := h.restore_order_spec hent priority hfits
  have hsize : queue.size = self.size := by
    rw [hmov.size_eq]
    exact length_set
  refine ⟨queue, ?_, ⟨hmov.synced, hord, ?_, ?_⟩, ?_⟩
  · simp [insert_or_change_priority, h.synced.find hent, decide_eq_true hlt, entry_at_eq hent, hqueue]
  · rw [hsize, hmov.min_heap_size]
    exact h.size_le
  · rw [hmov.min_heap_size]
    exact h.minimum_size_le
  · exact (hmov.perm.cons entry).trans (list_set.set_perm hent { entry with priority })

end PriorityQueue
end dart.priority_queue
