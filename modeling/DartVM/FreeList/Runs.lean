import DartVM.FreeList.Allocate

namespace dart.FreeList
open ranges chain List
variable {target : WordSize} {self : FreeList target} {lists : Nat → List Block} {lists' : Nat → List Block}

/-- The blocks that can be reached through the lists, with the sizes in their headers. -/
def Holds (self : FreeList target) (lists : Nat → List Block) : Prop :=
  ∀ i, i ≤ kNumLists → ∃ head, self.free_lists[i]? = some head ∧
    Chain self.memory.next head ((lists i).map Block.address) ∧
    ∀ block ∈ lists i, self.memory.heap_size block.address = .ok block.size

/-- The memory determines the blocks of each list. -/
lemma Holds.unique (h : self.Holds lists) (h' : self.Holds lists') {i : Nat}
    (hi : i ≤ kNumLists) : lists i = lists' i := by
  obtain ⟨head, hget, hchain, hsizes⟩ := h i hi
  obtain ⟨head', hget', hchain', hsizes'⟩ := h' i hi
  obtain rfl := Option.some.inj (hget.symm.trans hget')
  have hread {list : List Block} (hlist : ∀ block ∈ list, self.memory.heap_size block.address = .ok block.size) :
      (list.map Block.address).map (fun a => Block.mk a ((self.memory.heap_size a).toOption.getD 0)) = list := by
    rw [map_map]
    refine (map_congr_left fun block hblk => ?_).trans (map_id list)
    rw [Function.comp_apply, hlist block hblk]
    rfl
  rw [← hread hsizes, ← hread hsizes', hchain.unique hchain']

/-- What happens to a free list: its operations, and writes to memory that is not free. -/
inductive Op (target : WordSize) where
  | free_locked (block : Block)
  | try_allocate_locked (size : Nat)
  | try_allocate_small_locked (size : Nat)
  | try_allocate_large_locked (minimum_size : Int)
  | write (address : Nat) (word : BitVec target.kBitsPerWord)

/-- An operation and the address it returns. -/
def step (self : FreeList target) : Op target → Checked (Nat × FreeList target)
  | .free_locked block => do return (0, ← self.free_locked block.address block.size)
  | .try_allocate_locked size => self.try_allocate_locked size
  | .try_allocate_small_locked size => self.try_allocate_small_locked size
  | .try_allocate_large_locked minimum_size => self.try_allocate_large_locked minimum_size
  | .write address word => .ok (0, { self with memory := self.memory.store address word })

/-- What a caller owes: sizes are aligned, and only memory that is not free is freed or written. -/
def Permits (self : FreeList target) : Op target → Prop
  | .free_locked block => Allocatable target block ∧
      ∀ lists, self.Holds lists → ∀ other ∈ blocks lists, block.Apart other
  | .try_allocate_locked size | .try_allocate_small_locked size => 0 < size ∧ target.kObjectAlignment ∣ size
  | .try_allocate_large_locked _ => True
  | .write address _ => ∀ lists, self.Holds lists → address ∉ bytes (blocks lists)

/-- What an operation does to the free blocks. -/
def Effect (lists : Nat → List Block) (address : Nat) (lists' : Nat → List Block) : Op target → Prop
  | .free_locked block => (blocks lists').Perm (block :: blocks lists)
  | .try_allocate_locked size | .try_allocate_small_locked size =>
      (address = 0 ∧ lists' = lists) ∨ (address ≠ 0 ∧
        (∃ block ∈ blocks lists, block.address ≤ address ∧ address + size ≤ block.address + block.size) ∧
        bytes (blocks lists') = bytes (blocks lists) \ Block.bytes ⟨address, size⟩)
  | .try_allocate_large_locked minimum_size =>
      (address = 0 ∧ lists' = lists) ∨ (address ≠ 0 ∧
        ∃ block ∈ blocks lists, block.address = address ∧ minimum_size ≤ block.size ∧
          (block :: blocks lists').Perm (blocks lists) ∧ bytes (blocks lists') = bytes (blocks lists) \ block.bytes)
  | .write _ _ => lists' = lists

inductive Reachable : FreeList target → Prop where
  | reset (self : FreeList target) : Reachable self.reset
  | step {self freelist : FreeList target} {op : Op target} {address : Nat} :
      Reachable self → self.Permits op → self.step op = .ok (address, freelist) → Reachable freelist

lemma Inv.holds (h : self.Inv lists) : self.Holds lists := by
  intro i hi
  obtain ⟨head, -, hget, hchain⟩ := h.list_eq hi
  refine ⟨head, hget, hchain, fun block hblk => ?_⟩
  obtain ⟨halloc, helem⟩ := h.block_spec hi hblk
  exact helem.heap_size halloc.size_pos

lemma Inv.reset (self : FreeList target) : self.reset.Inv fun _ => [] := by
  have hempty : blocks (fun _ => []) = [] := by
    rw [blocks, flatMap_eq_nil_iff]
    exact fun _ _ => rfl
  have hbit (i : Nat) : (BitSet.reset : BitSet target kNumLists).bit i = false := by
    rw [BitSet.bit, BitSet.bitOf, BitSet.reset, List.getElem?_replicate]
    split
    next heq =>
      split at heq
      · cases heq
        exact BitVec.getLsbD_zero
      · cases heq
    next => rfl
  refine ⟨length_replicate, ?_, ?_, ?_, ?_, ?_, ?_, .inl ⟨show (-1 : Int) < 0 by decide, hbit⟩⟩
  · intro i head hhead
    exact eq_of_mem_replicate (mem_of_getElem? hhead)
  · exact fun block hblk => absurd (hempty ▸ hblk) not_mem_nil
  · exact fun block hblk => absurd (hempty ▸ hblk) not_mem_nil
  · exact fun _ _ block hblk => absurd hblk not_mem_nil
  · exact List.Pairwise.nil
  · intro i
    rw [show self.reset.free_map.bit i = false from hbit i]
    simp

lemma Takes.effect {address size : Nat} {freelist : FreeList target} (h : self.Inv lists)
    (htakes : Takes target lists size address freelist lists') :
    address ≠ 0 ∧ (∃ block ∈ blocks lists, block.address ≤ address ∧ address + size ≤ block.address + block.size) ∧
      bytes (blocks lists') = bytes (blocks lists) \ Block.bytes ⟨address, size⟩ := by
  obtain ⟨block, hmem, rfl, hle⟩ := htakes.inside
  exact ⟨htakes.address_pos h, ⟨block, hmem, le_rfl, by omega⟩, htakes.bytes_eq⟩

/-- One operation keeps the invariant. -/
lemma Inv.step_spec (h : self.Inv lists) {op : Op target} (hallow : self.Permits op) : ∃ address freelist lists',
    self.step op = .ok (address, freelist) ∧ freelist.Inv lists' ∧ Effect lists address lists' op := by
  cases op with
  | free_locked block =>
    obtain ⟨hblk, hapart⟩ := hallow
    obtain ⟨freelist, lists', hok, hinv, hperm⟩ := h.free_locked_spec hblk (hapart lists h.holds)
    exact ⟨0, freelist, lists', by rw [step, hok, ok_bind, pure_eq_ok], hinv, hperm⟩
  | try_allocate_locked size =>
    obtain ⟨address, freelist, hok, ⟨rfl, hinv⟩ | ⟨lists', htakes⟩⟩ := h.try_allocate_locked_spec hallow.1 hallow.2
    · exact ⟨0, freelist, lists, hok, hinv, .inl ⟨rfl, rfl⟩⟩
    · exact ⟨address, freelist, lists', hok, htakes.inv, .inr (htakes.effect h)⟩
  | try_allocate_small_locked size =>
    obtain ⟨address, freelist, hok, ⟨rfl, hinv⟩ | ⟨lists', htakes⟩⟩ :=
      h.try_allocate_small_locked_spec hallow.1 hallow.2
    · exact ⟨0, freelist, lists, hok, hinv, .inl ⟨rfl, rfl⟩⟩
    · exact ⟨address, freelist, lists', hok, htakes.inv, .inr (htakes.effect h)⟩
  | try_allocate_large_locked minimum_size =>
    obtain ⟨address, freelist, hok, ⟨rfl, hinv⟩ | ⟨lists', block, hmem, rfl, hle, hinv, hperm⟩⟩ :=
      h.try_allocate_large_locked_spec minimum_size
    · exact ⟨0, freelist, lists, hok, hinv, .inl ⟨rfl, rfl⟩⟩
    refine ⟨block.address, freelist, lists', hok, hinv, .inr ⟨?_, block, hmem, rfl, hle, hperm, ?_⟩⟩
    · exact Nat.ne_of_gt (h.allocatable block hmem).address_pos
    · exact bytes_remove hperm h.apart
  | write address word =>
    refine ⟨0, _, lists, rfl, h.frame fun a ha => ?_, rfl⟩
    have hne : a ≠ address := fun heq => hallow lists h.holds (heq ▸ ha)
    rw [Memory.store_apply, if_neg hne]

lemma Reachable.inv (h : Reachable self) : ∃ lists, self.Inv lists := by
  induction h with
  | reset self => exact ⟨_, Inv.reset self⟩
  | step _ hperm hok ih =>
    obtain ⟨lists, hinv⟩ := ih
    obtain ⟨address, freelist, lists', hok', hinv', -⟩ := hinv.step_spec hperm
    obtain ⟨-, rfl⟩ := Prod.mk.inj (Except.ok.inj (hok.symm.trans hok'))
    exact ⟨lists', hinv'⟩

/-- The map and the last size summarise the lists, every block is on the list of its size, the blocks are
disjoint, and every operation succeeds, or fails, without losing or duplicating a byte. -/
def Consistent (self : FreeList target) (lists : Nat → List Block) : Prop :=
  (∀ i, i < kNumLists → self.free_map.test i = .ok (!(lists i).isEmpty) ∧
    ∀ block ∈ lists i, block.size = i * target.kObjectAlignment) ∧
  (∀ block ∈ lists kNumLists, kNumLists * target.kObjectAlignment ≤ block.size) ∧
  ((self.last_free_small_size < 0 ∧ ∀ i, i < kNumLists → lists i = []) ∨
    ∃ i, i < kNumLists ∧ self.last_free_small_size = ↑(i * target.kObjectAlignment) ∧ lists i ≠ [] ∧
      ∀ j, i < j → j < kNumLists → lists j = []) ∧
  (blocks lists).Pairwise Block.Apart ∧
  ∀ op, self.Permits op → ∃ address freelist lists', self.step op = .ok (address, freelist) ∧
    freelist.Holds lists' ∧ Effect lists address lists' op

lemma Inv.lists_consistent (h : self.Inv lists) : self.Consistent lists := by
  refine ⟨fun i hi => ⟨?_, fun block hblk => ?_⟩, fun block hblk => ?_, ?_, h.apart, fun op hperm => ?_⟩
  · rw [self.free_map.test_spec hi, Except.ok.injEq, Bool.eq_iff_iff, h.free_map]
    simp [hi]
  · have halloc := (h.block_spec hi.le hblk).1
    exact (sizeClass_lt_iff halloc.size_aligned hi).mp (h.size_class i hi.le block hblk)
  · exact le_of_sizeClass_eq (h.size_class kNumLists le_rfl block hblk)
  · have hempty {i : Nat} (hi : i < kNumLists) (hbit : self.free_map.bit i = false) : lists i = [] := by
      by_contra hne
      rw [(h.free_map i).mpr ⟨hi, hne⟩] at hbit
      cases hbit
    rcases h.last_free_small_size with ⟨hneg, hnone⟩ | ⟨i, heq, hbit, hafter⟩
    · exact .inl ⟨hneg, fun i hi => hempty hi (hnone i)⟩
    · obtain ⟨hi, hne⟩ := (h.free_map i).mp hbit
      exact .inr ⟨i, hi, heq, hne, fun j hj hlt => hempty hlt (hafter j hj)⟩
  · obtain ⟨address, freelist, lists', hok, hinv, heffect⟩ := h.step_spec hperm
    exact ⟨address, freelist, lists', hok, hinv.holds, heffect⟩

/-- Every reachable free list is consistent with the blocks it holds. -/
theorem Reachable.consistent (h : Reachable self) :
    ∃ lists, self.Holds lists ∧ (∀ lists', self.Holds lists' → ∀ i, i ≤ kNumLists → lists' i = lists i) ∧
      self.Consistent lists := by
  obtain ⟨lists, hinv⟩ := h.inv
  exact ⟨lists, hinv.holds, fun lists' hlists' i hi => hlists'.unique hinv.holds hi, hinv.lists_consistent⟩

/-- A free list without blocks, in an empty memory. -/
def emptyHeap : FreeList .bits64 := reset ⟨fun _ => 0, .reset, [], 0, 0⟩

set_option maxRecDepth 2000 in
/-- A block is freed, and its first third is allocated again. -/
theorem Reachable.consistent_oneBlock : ∃ freed freelist : FreeList .bits64,
    emptyHeap.step (.free_locked ⟨64, 48⟩) = .ok (0, freed) ∧
    freed.step (.try_allocate_locked 16) = .ok (64, freelist) ∧ freelist.last_free_small_size = 32 ∧
      ∃ lists, freelist.Holds lists ∧ (∀ lists', freelist.Holds lists' → ∀ i, i ≤ kNumLists → lists' i = lists i) ∧
        freelist.Consistent lists := by
  have hperm : emptyHeap.Permits (.free_locked ⟨64, 48⟩) := by
    refine ⟨⟨by decide, by decide, by decide, by decide, by decide⟩, fun lists hlists other hother => ?_⟩
    obtain ⟨i, hi, hmem⟩ := mem_blocks.mp hother
    rw [hlists.unique (Inv.reset _).holds hi] at hmem
    cases hmem
  have hsize {self : FreeList .bits64} : self.Permits (.try_allocate_locked 16) := ⟨by decide, by decide⟩
  exact ⟨_, _, rfl, rfl, rfl, Reachable.consistent (.step (.step (.reset _) hperm rfl) hsize rfl)⟩

end dart.FreeList
