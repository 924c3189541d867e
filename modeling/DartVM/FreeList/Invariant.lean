import DartVM.FreeList.Lists
import DartVM.Lib.Chain
import DartVM.Lib.ListSet

namespace dart
open untagged_object ranges chain List Function Nat

/-- The blocks of all lists. -/
def blocks (lists : Nat → List Block) : List Block := (List.range (kNumLists + 1)).flatMap lists

/-- The list for blocks of a size. -/
def sizeClass (target : WordSize) (size : Nat) : Nat := min (size / target.kObjectAlignment) kNumLists

/-- The size of the largest set bit, or a negative number if there is none. -/
def LastSize (target : WordSize) (bit : Nat → Bool) (last : Int) : Prop :=
  (last < 0 ∧ ∀ i, bit i = false) ∨
    ∃ i : Nat, last = ↑(i * target.kObjectAlignment) ∧ bit i = true ∧ ∀ j, i < j → bit j = false

variable {target : WordSize} {lists : Nat → List Block} {block : Block} {index : Nat} {size : Nat}

lemma mem_blocks : block ∈ blocks lists ↔ ∃ i, i ≤ kNumLists ∧ block ∈ lists i := by
  rw [blocks, mem_flatMap]
  refine exists_congr fun i => and_congr_left fun _ => ?_
  rw [mem_range]
  exact Nat.lt_succ_iff

lemma blocks_update_perm (lists : Nat → List Block) (hidx : index ≤ kNumLists) (list : List Block) :
    (lists index ++ blocks (update lists index list)).Perm (list ++ blocks lists) :=
  list_set.flatMap_update_perm nodup_range (mem_range.mpr (Nat.lt_succ_iff.mpr hidx)) lists list

lemma blocks_push (lists : Nat → List Block) (hidx : index ≤ kNumLists) (block : Block) :
    (blocks (update lists index (block :: lists index))).Perm (block :: blocks lists) := by
  have hperm := blocks_update_perm lists hidx (block :: lists index)
  exact (perm_append_left_iff (lists index)).mp (hperm.trans perm_middle.symm)

lemma blocks_remove {before after : List Block} (hidx : index ≤ kNumLists)
    (hlist : lists index = before ++ block :: after) :
    (block :: blocks (update lists index (before ++ after))).Perm (blocks lists) := by
  have hperm := blocks_update_perm lists hidx (before ++ after)
  rw [hlist] at hperm
  refine (perm_append_left_iff (before ++ after)).mp (.trans ?_ hperm)
  refine perm_middle.trans ?_
  exact perm_middle.symm.append_right _

lemma sizeClass_le (target : WordSize) (size : Nat) : sizeClass target size ≤ kNumLists := min_le_right _ _

lemma sizeClass_lt_iff (halign : target.kObjectAlignment ∣ size) (hidx : index < kNumLists) :
    sizeClass target size = index ↔ size = index * target.kObjectAlignment := by
  have hpos : 0 < target.kObjectAlignment := by cases target <;> decide
  obtain ⟨units, rfl⟩ := halign
  rw [sizeClass, Nat.mul_div_cancel_left _ hpos, Nat.mul_comm index, Nat.mul_left_cancel_iff hpos]
  omega

lemma le_of_sizeClass_eq (h : sizeClass target size = kNumLists) : kNumLists * target.kObjectAlignment ≤ size := by
  unfold sizeClass at h
  exact Nat.mul_le_of_le_div _ _ _ (by omega)

lemma index_for_size_eq (hpos : 0 < size) (halign : target.kObjectAlignment ∣ size) :
    FreeList.index_for_size target size = .ok (sizeClass target size) := by
  have hle : size ≥ target.kObjectAlignment := le_of_dvd hpos halign
  simp only [FreeList.index_for_size, decide_eq_true hle, check_true, ok_bind, target.is_aligned_eq,
    decide_eq_true halign, pure_eq_ok, shiftRight_eq_div_pow, ← target.kObjectAlignment_eq, sizeClass]
  congr 1
  split <;> omega

namespace FreeList

/-- The lists are linked through the memory and hold disjoint blocks of their sizes; the map and the last size
summarise which are empty. -/
structure Inv (freelist : FreeList target) (lists : Nat → List Block) : Prop where
  length_free_lists : freelist.free_lists.length = kNumLists + 1
  chain : ∀ i head, freelist.free_lists[i]? = some head →
    Chain freelist.memory.next head ((lists i).map Block.address)
  allocatable : ∀ block ∈ blocks lists, Allocatable target block
  element : ∀ block ∈ blocks lists, IsElement freelist.memory block
  size_class : ∀ i, i ≤ kNumLists → ∀ block ∈ lists i, sizeClass target block.size = i
  apart : (blocks lists).Pairwise Block.Apart
  free_map : ∀ i, freelist.free_map.bit i = true ↔ i < kNumLists ∧ lists i ≠ []
  last_free_small_size : LastSize target freelist.free_map.bit freelist.last_free_small_size

variable {self : FreeList target}

lemma Inv.list_eq (h : self.Inv lists) (hidx : index ≤ kNumLists) : ∃ head, self.list index = .ok head ∧
    self.free_lists[index]? = some head ∧ Chain self.memory.next head ((lists index).map Block.address) := by
  have hlt : index < self.free_lists.length := by
    rw [h.length_free_lists]
    omega
  have hget := getElem?_eq_getElem hlt
  exact ⟨_, by rw [list, hget], hget, h.chain index _ hget⟩

lemma mark_enqueued_spec (next : Nat) (hidx : index ≤ kNumLists)
    (hlast : LastSize target self.free_map.bit self.last_free_small_size)
    (hmap : index < kNumLists → next ≠ 0 → self.free_map.bit index = true) : ∃ free_map last_free_small_size,
      self.mark_enqueued index next = .ok { self with free_map, last_free_small_size } ∧
      (∀ j, free_map.bit j = if j = index ∧ index < kNumLists then true else self.free_map.bit j) ∧
      LastSize target free_map.bit last_free_small_size := by
  unfold mark_enqueued
  by_cases hfst : next = 0 ∧ index ≠ kNumLists
  · have hlt : index < kNumLists := by omega
    obtain ⟨free_map, hok, hbit⟩ := self.free_map.set_spec hlt true
    refine ⟨free_map, max self.last_free_small_size ↑(index * target.kObjectAlignment), ?_, ?_, ?_⟩
    · simp [if_pos hfst, hok, target.shiftLeft_kObjectAlignmentLog2]
    · intro j
      simp [hbit, hlt]
    · rcases hlast with ⟨hneg, hnone⟩ | ⟨i, heq, hset, hafter⟩
      · refine .inr ⟨index, by omega, by rw [hbit, if_pos rfl], fun j hj => ?_⟩
        rw [hbit, if_neg (by omega), hnone]
      rcases le_total i index with hle | hle
      · have := mul_le_mul_right target.kObjectAlignment hle
        refine .inr ⟨index, by omega, by rw [hbit, if_pos rfl], fun j hj => ?_⟩
        rw [hbit, if_neg (by omega), hafter j (by omega)]
      have := mul_le_mul_right target.kObjectAlignment hle
      refine .inr ⟨i, by omega, ?_, fun j hj => ?_⟩
      · rw [hbit, hset, ite_self]
      · rw [hbit, if_neg (by omega), hafter j hj]
  · refine ⟨self.free_map, self.last_free_small_size, if_neg hfst, fun j => ?_, hlast⟩
    split
    next hj =>
      obtain ⟨rfl, hlt⟩ := hj
      exact hmap hlt (by omega)
    next => rfl

lemma mark_dequeued_spec (next : Nat) (hidx : index ≤ kNumLists)
    (hlast : LastSize target self.free_map.bit self.last_free_small_size)
    (hset : index < kNumLists → self.free_map.bit index = true) : ∃ free_map last_free_small_size,
      self.mark_dequeued index next = .ok { self with free_map, last_free_small_size } ∧
      (∀ j, free_map.bit j = if j = index ∧ index < kNumLists ∧ next = 0 then false else self.free_map.bit j) ∧
      LastSize target free_map.bit last_free_small_size := by
  have hpos : 0 < target.kObjectAlignment := by cases target <;> decide
  unfold mark_dequeued
  by_cases hempty : next = 0 ∧ index ≠ kNumLists
  · have hlt : index < kNumLists := by omega
    obtain ⟨i, heq, hi, hafter⟩ := hlast.resolve_left fun hnone => by
      have := hset hlt
      rw [hnone.2] at this
      cases this
    have hcmp : ↑(index * target.kObjectAlignment) = self.last_free_small_size ↔ index = i := by
      rw [heq, Int.natCast_inj, Nat.mul_right_cancel_iff hpos]
    simp only [if_pos hempty, target.shiftLeft_kObjectAlignmentLog2, hcmp]
    by_cases hlargest : index = i
    · subst hlargest
      obtain ⟨previous, free_map, hok, hbit, hprev⟩ := self.free_map.clear_last_and_find_previous_spec hlt hi hafter
      refine ⟨free_map, previous * ↑target.kObjectAlignment, ?_, ?_, ?_⟩
      · simp [hok]
      · intro j
        simp [hbit, hlt, hempty.1]
      · rcases hprev with ⟨rfl, hnone⟩ | ⟨j, rfl, hj, habove⟩
        · exact .inl ⟨by omega, hnone⟩
        · exact .inr ⟨j, by rw [Int.natCast_mul], hj, habove⟩
    · obtain ⟨free_map, hok, hbit⟩ := self.free_map.set_spec hlt false
      refine ⟨free_map, self.last_free_small_size, ?_, ?_, ?_⟩
      · simp [if_neg hlargest, hok]
      · intro j
        simp [hbit, hlt, hempty.1]
      · refine .inr ⟨i, heq, ?_, fun j hj => ?_⟩
        · rw [hbit, if_neg (Ne.symm hlargest), hi]
        · rw [hbit, hafter j hj, ite_self]
  · refine ⟨self.free_map, self.last_free_small_size, if_neg hempty, fun j => ?_, hlast⟩
    rw [if_neg (by omega)]

lemma Inv.block_spec (h : self.Inv lists) (hidx : index ≤ kNumLists) (hblk : block ∈ lists index) :
    Allocatable target block ∧ IsElement self.memory block :=
  have hmem := mem_blocks.mpr ⟨index, hidx, hblk⟩
  ⟨h.allocatable block hmem, h.element block hmem⟩

lemma Inv.address_lt (h : self.Inv lists) (hidx : index ≤ kNumLists) {head : Nat}
    (hchain : Chain self.memory.next head ((lists index).map Block.address)) : head < 2 ^ target.kBitsPerWord := by
  cases hlist : lists index with
  | nil =>
    rw [hlist] at hchain
    rw [show head = 0 from hchain]
    exact Nat.two_pow_pos _
  | cons block rest =>
    have hblk := (h.block_spec hidx (hlist ▸ mem_cons_self)).1
    rw [hlist] at hchain
    rw [hchain.1]
    have hpos := hblk.size_pos
    have hfits := hblk.fits
    omega

/-- Blocks that are apart start at different addresses. -/
lemma address_ne {other : Block} (hblk : Allocatable target block) (hother : Allocatable target other)
    (hapart : block.Apart other) : block.address ≠ other.address := by
  have hpos := hblk.size_pos
  have hpos' := hother.size_pos
  unfold Block.Apart at hapart
  omega

/-- `EnqueueElement` adds a block to a list. -/
lemma Inv.enqueue_element_spec (h : self.Inv lists) (hblk : Allocatable target block)
    (helem : IsElement self.memory block) (hapart : ∀ other ∈ blocks lists, block.Apart other)
    (hclass : sizeClass target block.size = index) :
    ∃ freelist, self.enqueue_element block.address index = .ok freelist ∧
      freelist.Inv (update lists index (block :: lists index)) := by
  have hidx : index ≤ kNumLists := hclass ▸ sizeClass_le target block.size
  obtain ⟨next, hlist, hget, hchain⟩ := h.list_eq hidx
  have hnext := h.address_lt hidx hchain
  obtain ⟨free_map, last_free_small_size, hmark, hbit, hlast⟩ :=
    mark_enqueued_spec next hidx h.last_free_small_size fun hlt hne => by
      rw [h.free_map]
      refine ⟨hlt, fun hempty => hne ?_⟩
      rw [hempty] at hchain
      exact hchain
  have hok : self.enqueue_element block.address index = .ok
      ⟨self.memory.set_next block.address next, free_map, self.free_lists.set index block.address,
        self.freelist_search_budget, last_free_small_size⟩ := by
    rw [enqueue_element, hlist, ok_bind, hmark, ok_bind, pure_eq_ok]
    rfl
  have hperm := blocks_push lists hidx block
  have hnew {other : Block} (hother : other ∈ blocks (update lists index (block :: lists index))) :
      other = block ∨ other ∈ blocks lists := mem_cons.mp (hperm.mem_iff.mp hother)
  have hne {i : Nat} (hi : i ≤ kNumLists) {a : Nat} (ha : a ∈ (lists i).map Block.address) : a ≠ block.address := by
    obtain ⟨other, hother, rfl⟩ := mem_map.mp ha
    have hmem := mem_blocks.mpr ⟨i, hi, hother⟩
    exact (address_ne hblk (h.allocatable other hmem) (hapart other hmem)).symm
  refine ⟨_, hok, ?_, ?_, ?_, ?_, ?_, ?_, ?_, hlast⟩
  · rw [length_set, h.length_free_lists]
  · intro i head hhead
    have hi : i ≤ kNumLists := by
      have hlt := (List.getElem?_eq_some_iff.mp hhead).1
      rw [length_set, h.length_free_lists] at hlt
      omega
    by_cases heq : i = index
    · subst heq
      rw [List.getElem?_set_self (List.getElem?_eq_some_iff.mp hget).1, Option.some.injEq] at hhead
      subst hhead
      rw [update_self, map_cons]
      refine hchain.push (ne_of_gt hblk.address_pos) (fun hmem => hne hi hmem rfl) ?_ fun other hother => ?_
      · rw [Memory.next_set_next _ hnext, if_pos rfl]
      · rw [Memory.next_set_next _ hnext, if_neg hother]
    · rw [getElem?_set_ne (Ne.symm heq)] at hhead
      rw [update_of_ne heq]
      refine (h.chain i head hhead).congr fun a ha => ?_
      rw [Memory.next_set_next _ hnext, if_neg (hne hi ha)]
  · intro other hother
    rcases hnew hother with rfl | hold
    · exact hblk
    · exact h.allocatable other hold
  · intro other hother
    rcases hnew hother with rfl | hold
    · exact helem.set_next hblk (.inl rfl) next
    · exact (h.element other hold).set_next (h.allocatable other hold)
        (.inr ((hapart other hold).notMem hblk.header_mem.2.1)) next
  · intro i hi other hother
    by_cases heq : i = index
    · subst heq
      rw [update_self, mem_cons] at hother
      rcases hother with rfl | hold
      · exact hclass
      · exact h.size_class i hi other hold
    · rw [update_of_ne heq] at hother
      exact h.size_class i hi other hother
  · refine pairwise_apart_perm hperm.symm ?_
    exact pairwise_cons.mpr ⟨hapart, h.apart⟩
  · intro i
    rw [hbit]
    by_cases heq : i = index
    · subst heq
      rw [update_self]
      by_cases hlt : i < kNumLists
      · simp [hlt]
      · rw [if_neg (by omega), h.free_map]
        simp [hlt]
    · rw [if_neg (by omega), update_of_ne heq, h.free_map]

/-- `DequeueElement` takes the first block of a list and writes no memory. -/
lemma Inv.dequeue_element_spec (h : self.Inv lists) (hidx : index ≤ kNumLists) {rest : List Block}
    (hlists : lists index = block :: rest) : ∃ freelist, self.dequeue_element index = .ok (block.address, freelist) ∧
    freelist.memory = self.memory ∧ freelist.Inv (update lists index rest) := by
  obtain ⟨head, hlist, hget, hchain⟩ := h.list_eq hidx
  rw [hlists] at hchain
  obtain ⟨rfl, hne, hrest⟩ := hchain
  obtain ⟨free_map, last_free_small_size, hmark, hbit, hlast⟩ :=
    mark_dequeued_spec (self.memory.next block.address) hidx h.last_free_small_size fun hlt => by
      rw [h.free_map, hlists]
      exact ⟨hlt, cons_ne_nil _ _⟩
  have hok : self.dequeue_element index = .ok (block.address, ⟨self.memory, free_map, self.free_lists.set index
      (self.memory.next block.address), self.freelist_search_budget, last_free_small_size⟩) := by
    simp only [dequeue_element, hlist, ok_bind, if_neg hne, hmark, pure_eq_ok]
    rfl
  have hperm : (block :: blocks (update lists index rest)).Perm (blocks lists) :=
    blocks_remove hidx (show lists index = [] ++ block :: rest from hlists)
  have hold {other : Block} (hother : other ∈ blocks (update lists index rest)) : other ∈ blocks lists :=
    hperm.mem_iff.mp (.tail _ hother)
  refine ⟨_, hok, rfl, ?_, ?_, ?_, ?_, ?_, ?_, ?_, hlast⟩
  · rw [length_set, h.length_free_lists]
  · intro i head hhead
    by_cases heq : i = index
    · subst heq
      rw [List.getElem?_set_self (List.getElem?_eq_some_iff.mp hget).1, Option.some.injEq] at hhead
      subst hhead
      rw [update_self]
      exact hrest
    · rw [getElem?_set_ne (Ne.symm heq)] at hhead
      rw [update_of_ne heq]
      exact h.chain i head hhead
  · exact fun other hother => h.allocatable other (hold hother)
  · exact fun other hother => h.element other (hold hother)
  · intro i hi other hother
    by_cases heq : i = index
    · subst heq
      rw [update_self] at hother
      exact h.size_class i hi other (hlists ▸ .tail _ hother)
    · rw [update_of_ne heq] at hother
      exact h.size_class i hi other hother
  · exact (pairwise_cons.mp (pairwise_apart_perm hperm.symm h.apart)).2
  · intro i
    rw [hbit]
    by_cases heq : i = index
    · subst heq
      have h0 := hrest.head_eq_zero_iff
      rw [map_eq_nil_iff] at h0
      rw [update_self, ne_eq, ← h0]
      by_cases hlt : i < kNumLists
      · by_cases hnext : self.memory.next block.address = 0
        · simp [hnext, hlt]
        · rw [if_neg fun hall => hnext hall.2.2, h.free_map, hlists]
          simp [hlt, hnext]
      · rw [if_neg fun hall => hlt hall.2.1, h.free_map]
        simp [hlt]
    · rw [if_neg fun hall => heq hall.1, update_of_ne heq, h.free_map]

end FreeList
end dart
