import DartVM.FreeList.Invariant

namespace dart.FreeList
open untagged_object ranges chain List Function Nat
variable {target : WordSize} {self : FreeList target} {lists : Nat → List Block} {block : Block} {size : Nat}
  {other : Block}

section
variable (h : self.Inv lists)
include h

/-- Writes outside the free blocks do not matter. -/
lemma Inv.frame {memory : Memory target} (hsame : ∀ a ∈ bytes (blocks lists), memory a = self.memory a)
    : { self with memory }.Inv lists := by
  have hblk (other : Block) (hother : other ∈ blocks lists) : IsElement memory other ∧
      memory.next other.address = self.memory.next other.address :=
    (h.element other hother).congr (h.allocatable other hother) fun a ha => hsame a ⟨other, hother, ha⟩
  refine ⟨h.length_free_lists, fun i head hhead => ?_, h.allocatable, fun other hother => (hblk other hother).1,
    h.size_class, h.apart, h.free_map, h.last_free_small_size⟩
  have hi : i ≤ kNumLists := by
    have hlt := (List.getElem?_eq_some_iff.mp hhead).1
    rw [h.length_free_lists] at hlt
    omega
  refine (h.chain i head hhead).congr fun a ha => ?_
  obtain ⟨other, hother, rfl⟩ := mem_map.mp ha
  exact (hblk other (mem_blocks.mpr ⟨i, hi, hother⟩)).2

section
variable (hblk : Allocatable target block)
include hblk

section
variable (hapart : ∀ other ∈ blocks lists, block.Apart other)
include hapart

/-- A block outside the free ones becomes free. -/
lemma Inv.add_block : ∃ memory freelist lists', self.memory.as_element block.address block.size = .ok memory ∧
      { self with memory }.enqueue_element block.address (sizeClass target block.size) = .ok freelist ∧
      freelist.Inv lists' ∧ (blocks lists').Perm (block :: blocks lists) := by
  obtain ⟨memory, hok, helem, hsame⟩ := as_element_spec self.memory hblk
  have hframe : { self with memory }.Inv lists := by
    refine h.frame fun a ha => hsame a ?_
    obtain ⟨other, hother, ha⟩ := ha
    exact (hapart other hother).symm.notMem ha
  obtain ⟨freelist, henq, hinv⟩ := hframe.enqueue_element_spec hblk helem hapart rfl
  exact ⟨memory, freelist, _, hok, henq, hinv, blocks_push lists (sizeClass_le _ _) block⟩

lemma Inv.free_locked_spec :
    ∃ freelist lists', self.free_locked block.address block.size = .ok freelist ∧ freelist.Inv lists' ∧
      (blocks lists').Perm (block :: blocks lists) := by
  obtain ⟨memory, freelist, lists', has, henq, hinv, hperm⟩ := h.add_block hblk hapart
  refine ⟨freelist, lists', ?_, hinv, hperm⟩
  rw [free_locked, index_for_size_eq hblk.size_pos hblk.size_aligned, ok_bind, has, ok_bind, henq]

end

/-- The front of a block that has been taken off its list is split off and the remainder is free again. -/
lemma Inv.split_spec (helem : IsElement self.memory block) (hapart : ∀ other ∈ blocks lists, block.Apart other)
    (hpos : 0 < size) (halign : target.kObjectAlignment ∣ size) (hle : size ≤ block.size) :
    ∃ freelist lists', self.split_element_after_and_enqueue block.address size = .ok freelist ∧ freelist.Inv lists' ∧
      bytes (blocks lists') = bytes (⟨block.address + size, block.size - size⟩ :: blocks lists) := by
  have hsize := helem.heap_size hblk.size_pos
  by_cases hwhole : block.size - size = 0
  · refine ⟨self, lists, ?_, h, ?_⟩
    · simp [split_element_after_and_enqueue, hsize, if_pos hwhole]
    · have hempty : Block.bytes ⟨block.address + size, block.size - size⟩ = ∅ := by
        rw [hwhole]
        ext a
        exact ⟨fun ha => absurd ha.2 (by simpa using ha.1), fun ha => absurd ha (Set.notMem_empty a)⟩
      rw [bytes_cons, hempty, Set.empty_union]
  have hrem : Allocatable target ⟨block.address + size, block.size - size⟩ := by
    have hfits := hblk.fits
    exact ⟨by simp only; omega, Nat.dvd_add hblk.address_aligned halign,
      dvd_sub hblk.size_aligned halign, by simp only; omega, by simp only; omega⟩
  obtain ⟨memory, freelist, lists', has, henq, hinv, hperm⟩ := h.add_block hrem fun other hother =>
    (hapart other hother).part (le_add_right _ _) (by simp only; omega)
  refine ⟨freelist, lists', ?_, hinv, bytes_perm hperm⟩
  simp [split_element_after_and_enqueue, hsize, if_neg hwhole, has, index_for_size_eq hrem.size_pos hrem.size_aligned, henq]

end

/-- An allocation takes the bytes it returns from one free block, and no others. -/
structure Takes (target : WordSize) (lists : Nat → List Block) (size address : Nat) (freelist : FreeList target)
    (lists' : Nat → List Block) : Prop where
  inv : freelist.Inv lists'
  inside : ∃ block ∈ blocks lists, block.address = address ∧ size ≤ block.size
  bytes_eq : bytes (blocks lists') = bytes (blocks lists) \ Block.bytes ⟨address, size⟩

lemma Takes.address_pos {address : Nat} {freelist : FreeList target} {lists' : Nat → List Block}
    (htakes : Takes target lists size address freelist lists') : address ≠ 0 := by
  obtain ⟨block, hmem, rfl, -⟩ := htakes.inside
  exact ne_of_gt (h.allocatable block hmem).address_pos

/-- Splitting a block that has been taken off its list. -/
lemma Inv.split_takes {lists0 : Nat → List Block} (hapart : (blocks lists0).Pairwise Block.Apart)
    (hperm : (block :: blocks lists).Perm (blocks lists0)) (hblk : Allocatable target block)
    (helem : IsElement self.memory block) (hpos : 0 < size) (halign : target.kObjectAlignment ∣ size)
    (hle : size ≤ block.size) :
    ∃ freelist lists', self.split_element_after_and_enqueue block.address size = .ok freelist ∧
      Takes target lists0 size block.address freelist lists' := by
  have hcons := pairwise_cons.mp (pairwise_apart_perm hperm.symm hapart)
  obtain ⟨freelist, lists', hok, hinv, hbytes⟩ := h.split_spec hblk helem hcons.1 hpos halign hle
  refine ⟨freelist, lists', hok, hinv, ⟨block, hperm.mem_iff.mp (.head _), rfl, hle⟩, ?_⟩
  rw [hbytes, bytes_split hperm hapart hle]

end

section
variable (h : self.Inv lists) (hpos : 0 < size) (halign : target.kObjectAlignment ∣ size)
include h hpos halign

lemma Inv.allocate_small_spec : ∃ result, self.allocate_small (sizeClass target size) size = .ok result ∧
      ∀ address freelist, result = some (address, freelist) →
        ∃ lists', Takes target lists size address freelist lists' := by
  have hclass := sizeClass_le target size
  have hfst {i : Nat} (hbit : self.free_map.bit i = true) : i < kNumLists ∧ ∃ block rest, lists i = block :: rest := by
    obtain ⟨hi, hne⟩ := (h.free_map i).mp hbit
    exact ⟨hi, exists_cons_of_ne_nil hne⟩
  have hex : self.has_exact (sizeClass target size) = .ok (self.free_map.bit (sizeClass target size)) := by
    unfold has_exact
    split
    next hne => exact self.free_map.test_spec (by omega)
    next heq =>
      have hnot : ¬self.free_map.bit (sizeClass target size) = true := by
        rw [h.free_map]
        omega
      rw [Bool.not_eq_true] at hnot
      rw [hnot]
  unfold allocate_small
  rw [hex, ok_bind]
  by_cases hbit : self.free_map.bit (sizeClass target size) = true
  · obtain ⟨hlt, block, rest, hlist⟩ := hfst hbit
    obtain ⟨freelist, hok, -, hinv⟩ := h.dequeue_element_spec hclass hlist
    have hmem : block ∈ lists (sizeClass target size) := hlist ▸ (.head _)
    have hblk := (h.block_spec hclass hmem).1
    have hsize : size = block.size := by
      rw [(sizeClass_lt_iff hblk.size_aligned hlt).mp (h.size_class _ hclass block hmem)]
      exact (sizeClass_lt_iff halign hlt).mp rfl
    refine ⟨some (block.address, freelist), ?_, ?_⟩
    · rw [if_pos hbit, hok, ok_bind, pure_eq_ok]
    · rintro address freelist' heq
      obtain ⟨rfl, rfl⟩ := Prod.mk.inj (Option.some.inj heq)
      refine ⟨_, hinv, ⟨block, mem_blocks.mpr ⟨_, hclass, hmem⟩, rfl, hsize.le⟩, ?_⟩
      have hsame : (⟨block.address, size⟩ : Block) = block := by rw [hsize]
      rw [hsame]
      exact bytes_remove (blocks_remove hclass (show _ = [] ++ block :: rest from hlist)) h.apart
  · rw [if_neg hbit]
    by_cases hroom : sizeClass target size + 1 < kNumLists
    · obtain ⟨next_index, hnext, hfirstBit⟩ := self.free_map.next_spec hroom
      simp only [if_pos hroom, hnext, ok_bind]
      rcases hfirstBit with ⟨rfl, -⟩ | ⟨j, rfl, hj, hjBit, -⟩
      · exact ⟨none, by simp, fun _ _ heq => by cases heq⟩
      obtain ⟨hlt, block, rest, hlist⟩ := hfst hjBit
      obtain ⟨dequeued, hok, hmemory, hinv⟩ := h.dequeue_element_spec hlt.le hlist
      have hmem : block ∈ lists j := hlist ▸ (.head _)
      obtain ⟨hblk, helem⟩ := h.block_spec hlt.le hmem
      have hle : size ≤ block.size := by
        rw [(sizeClass_lt_iff hblk.size_aligned hlt).mp (h.size_class _ hlt.le block hmem),
          (sizeClass_lt_iff halign (by omega : sizeClass target size < kNumLists)).mp rfl]
        exact mul_le_mul_right _ (by omega)
      obtain ⟨freelist, lists', hsplit, htakes⟩ := hinv.split_takes h.apart
        (blocks_remove hlt.le (show _ = [] ++ block :: rest from hlist)) hblk (hmemory ▸ helem) hpos halign hle
      refine ⟨some (block.address, freelist), ?_, ?_⟩
      · have hne : (j : Int) ≠ -1 := by omega
        simp [hok, hsplit]
      · rintro address freelist' heq
        obtain ⟨rfl, rfl⟩ := Prod.mk.inj (Option.some.inj heq)
        exact ⟨lists', htakes⟩
    · exact ⟨none, by rw [if_neg hroom, pure_eq_ok], fun _ _ heq => by cases heq⟩

end

/-- The address of the last block before the one a search has reached. -/
def previousAddress (before : List Block) : Nat := (before.getLast?.map Block.address).getD 0

/-- What a search of the last list has found. -/
def SearchSpec (lists : Nat → List Block) (size : Int) : Search → Prop
  | .found previous current _ => ∃ before block after, lists kNumLists = before ++ block :: after ∧
      previous = previousAddress before ∧ current = block.address ∧ size ≤ block.size
  | .out_of_budget | .out_of_elements => True

section
variable (h : self.Inv lists)
include h

lemma Inv.search_spec (size : Int) : ∀ (fuel : Nat) (before rest : List Block) (current : Nat)
    (tries_left : Int), lists kNumLists = before ++ rest → Chain self.memory.next current (rest.map Block.address) →
    (tries_left + 1).toNat + 1 ≤ fuel →
    ∃ result, self.search size fuel (previousAddress before) current tries_left = .ok result ∧
      SearchSpec lists size result := by
  intro fuel
  induction fuel with
  | zero => exact fun _ _ _ _ _ _ hfuel => absurd hfuel (by omega)
  | succ fuel ih =>
    intro before rest current tries_left hlist hchain hfuel
    unfold search
    cases rest with
    | nil =>
      have hnull : current = 0 := hchain
      exact ⟨.out_of_elements, by rw [if_pos hnull, pure_eq_ok], trivial⟩
    | cons block after =>
      obtain ⟨rfl, hne, hrest⟩ := hchain
      have hmem : block ∈ lists kNumLists := hlist ▸ mem_append_right _ (.head _)
      obtain ⟨hblk, helem⟩ := h.block_spec le_rfl hmem
      simp only [if_neg hne, helem.heap_size hblk.size_pos, ok_bind]
      by_cases hbig : (block.size : Int) ≥ size
      · exact ⟨.found _ _ _, by rw [if_pos hbig, pure_eq_ok], before, block, after, hlist, rfl, rfl, hbig⟩
      rw [if_neg hbig]
      by_cases hbudget : tries_left < 0
      · exact ⟨.out_of_budget, by rw [if_pos hbudget, pure_eq_ok], trivial⟩
      rw [if_neg hbudget]
      have hprev : block.address = previousAddress (before ++ [block]) := by
        rw [previousAddress, getLast?_concat]
        rfl
      rw [hprev]
      exact ih (before ++ [block]) after _ (tries_left - 1) (by rw [hlist, append_assoc]; rfl)
        (hprev ▸ hrest) (by omega)

lemma Inv.search_large_spec (size : Int) :
    ∃ result, self.search_large size = .ok result ∧ SearchSpec lists size result := by
  obtain ⟨head, hlist, -, hchain⟩ := h.list_eq le_rfl
  obtain ⟨result, hok, hspec⟩ := h.search_spec size _ [] (lists kNumLists) head
    (self.freelist_search_budget + size >>> target.kWordSizeLog2) rfl hchain le_rfl
  refine ⟨result, ?_, hspec⟩
  rw [search_large, hlist]
  exact hok

lemma Inv.apart_of_ne (hblk : block ∈ blocks lists) (hother : other ∈ blocks lists)
    (hne : block ≠ other) : block.Apart other := h.apart.forall hblk hother hne

lemma Inv.address_injective (hblk : block ∈ blocks lists) (hother : other ∈ blocks lists)
    (heq : block.address = other.address) : block = other := by
  by_contra hne
  exact address_ne (h.allocatable _ hblk) (h.allocatable _ hother) (h.apart_of_ne hblk hother hne) heq

lemma Inv.nodup : ((lists kNumLists).map Block.address).Nodup := by
  have hmem : kNumLists ∈ range (kNumLists + 1) := mem_range.mpr (lt_succ_self _)
  have hapart := (pairwise_flatMap.mp h.apart).1 kNumLists hmem
  rw [Nodup, pairwise_map]
  refine hapart.imp_of_mem fun {a b} ha hb hab => ?_
  exact address_ne (h.block_spec le_rfl ha).1 (h.block_spec le_rfl hb).1 hab

/-- Taking a block out of the last list keeps its header. -/
lemma Inv.unlink_large_spec {before after : List Block} (hlist : lists kNumLists = before ++ block :: after) :
    (self.unlink_large (previousAddress before) block.address).Inv (update lists kNumLists (before ++ after)) ∧
      IsElement (self.unlink_large (previousAddress before) block.address).memory block := by
  have hmemLast {other : Block} (hother : other ∈ before ++ block :: after) : other ∈ blocks lists :=
    mem_blocks.mpr ⟨kNumLists, le_rfl, hlist ▸ hother⟩
  have hblk := hmemLast (mem_append_right _ (.head _))
  cases before using reverseRecOn with
  | nil =>
    have hdequeue := h.dequeue_element_spec le_rfl hlist
    obtain ⟨head, hlistEq, -, hchain⟩ := h.list_eq le_rfl
    rw [hlist] at hchain
    obtain ⟨rfl, hne, -⟩ := hchain
    have hok : self.dequeue_element kNumLists =
        .ok (block.address, self.set_list kNumLists (self.memory.next block.address)) := by
      simp [dequeue_element, hlistEq, if_neg hne, mark_dequeued]
    obtain ⟨freelist, hok', -, hinv⟩ := hdequeue
    obtain rfl := (Prod.mk.inj (Except.ok.inj (hok.symm.trans hok'))).2
    exact ⟨hinv, h.element block hblk⟩
  | append_singleton before previous =>
    have hprev : previous ∈ blocks lists := hmemLast (mem_append_left _ (mem_append_right _ (.head _)))
    have halloc := h.allocatable previous hprev
    have haddr : previousAddress (before ++ [previous]) = previous.address := by
      rw [previousAddress, getLast?_concat]
      rfl
    have hunlink : self.unlink_large (previousAddress (before ++ [previous])) block.address =
        { self with memory := self.memory.set_next previous.address (self.memory.next block.address) } := by
      rw [haddr, unlink_large, if_neg (ne_of_gt halloc.address_pos)]
    rw [hunlink]
    rw [append_assoc, singleton_append] at hlist ⊢
    obtain ⟨head, -, hget, hchain⟩ := h.list_eq le_rfl
    have hnodup := h.nodup
    rw [hlist, map_append] at hchain hnodup
    -- the successor of the block is null or the start of another one
    have hnext : self.memory.next block.address < 2 ^ target.kBitsPerWord := (self.memory _).isLt
    have hlinks := self.memory.next_set_next hnext previous.address
    have helem (other : Block) (hother : other ∈ blocks lists) :
        IsElement (self.memory.set_next previous.address (self.memory.next block.address)) other := by
      refine (h.element other hother).set_next (h.allocatable other hother) ?_ _
      by_cases heq : previous = other
      · exact .inl (by rw [heq])
      · exact .inr ((h.apart_of_ne hprev hother heq).notMem halloc.header_mem.2.1)
    have hsplit : lists kNumLists = (before ++ [previous]) ++ block :: after := by
      rw [hlist, append_assoc, singleton_append]
    have hperm := blocks_remove le_rfl hsplit
    rw [append_assoc] at hperm
    have hold {other : Block}
        (hother : other ∈ blocks (update lists kNumLists (before ++ previous :: after))) : other ∈ blocks lists :=
      hperm.mem_iff.mp (.tail _ hother)
    refine ⟨⟨h.length_free_lists, ?_, fun other hother => h.allocatable other (hold hother),
      fun other hother => helem other (hold hother), ?_, ?_, ?_, h.last_free_small_size⟩, helem block hblk⟩
    · intro i head' hhead
      by_cases heq : i = kNumLists
      · subst heq
        rw [update_self, map_append]
        obtain rfl := Option.some.inj (hget.symm.trans hhead)
        refine hchain.unlink hnodup ?_ fun other hother => ?_
        · rw [hlinks, if_pos rfl]
        · rw [hlinks, if_neg hother]
      rw [update_of_ne heq]
      have hi : i ≤ kNumLists := by
        have hlt := (List.getElem?_eq_some_iff.mp hhead).1
        rw [h.length_free_lists] at hlt
        omega
      refine (h.chain i head' hhead).congr fun a ha => ?_
      obtain ⟨other, hother, rfl⟩ := mem_map.mp ha
      rw [hlinks, if_neg fun hsame => ?_]
      have hsameBlock := h.address_injective (mem_blocks.mpr ⟨i, hi, hother⟩) hprev hsame
      have hclass := h.size_class i hi other hother
      rw [hsameBlock, h.size_class kNumLists le_rfl previous (hlist ▸ mem_append_right _ (.head _))] at hclass
      exact heq hclass.symm
    · intro i hi other hother
      by_cases heq : i = kNumLists
      · subst heq
        rw [update_self] at hother
        refine h.size_class _ hi other (hlist ▸ ?_)
        rw [mem_append, mem_cons] at hother ⊢
        exact hother.imp_right fun hother => hother.imp_right (mem_cons_of_mem _)
      · rw [update_of_ne heq] at hother
        exact h.size_class i hi other hother
    · exact (pairwise_cons.mp (pairwise_apart_perm hperm.symm h.apart)).2
    · intro i
      by_cases heq : i = kNumLists
      · subst heq
        rw [h.free_map]
        exact ⟨fun hlt => absurd hlt.1 (lt_irrefl _), fun hlt => absurd hlt.1 (lt_irrefl _)⟩
      · rw [update_of_ne heq]
        exact h.free_map i

lemma Inv.with_budget (freelist_search_budget : Int) : { self with freelist_search_budget }.Inv lists :=
  ⟨h.length_free_lists, h.chain, h.allocatable, h.element, h.size_class, h.apart, h.free_map, h.last_free_small_size⟩

/-- A large element is taken whole. -/
lemma Inv.try_allocate_large_locked_spec (minimum_size : Int) :
    ∃ address freelist, self.try_allocate_large_locked minimum_size = .ok (address, freelist) ∧
      (address = 0 ∧ freelist.Inv lists ∨
        ∃ lists' block, block ∈ blocks lists ∧ block.address = address ∧ minimum_size ≤ block.size ∧
          freelist.Inv lists' ∧ (block :: blocks lists').Perm (blocks lists)) := by
  obtain ⟨result, hsearch, hspec⟩ := h.search_large_spec minimum_size
  unfold try_allocate_large_locked
  rw [hsearch]
  cases result with
  | found previous current tries_left =>
    obtain ⟨before, block, after, hlist, rfl, rfl, hle⟩ := hspec
    have hperm := blocks_remove le_rfl hlist
    refine ⟨_, _, rfl, .inr ⟨_, block, hperm.mem_iff.mp (.head _), rfl, hle, ?_, hperm⟩⟩
    exact (h.unlink_large_spec hlist).1.with_budget _
  | out_of_budget => exact ⟨_, _, rfl, .inl ⟨rfl, h.with_budget _⟩⟩
  | out_of_elements => exact ⟨_, _, rfl, .inl ⟨rfl, h⟩⟩

end

variable (h : self.Inv lists) (hpos : 0 < size) (halign : target.kObjectAlignment ∣ size)
include h hpos halign

lemma Inv.try_allocate_small_locked_spec :
    ∃ address freelist, self.try_allocate_small_locked size = .ok (address, freelist) ∧
      (address = 0 ∧ freelist.Inv lists ∨ ∃ lists', Takes target lists size address freelist lists') := by
  unfold try_allocate_small_locked
  by_cases hnone : (size : Int) > self.last_free_small_size
  · exact ⟨0, self, by rw [if_pos hnone, pure_eq_ok], .inl ⟨rfl, h⟩⟩
  obtain ⟨result, hok, hspec⟩ := h.allocate_small_spec hpos halign
  rw [if_neg hnone, index_for_size_eq hpos halign, ok_bind, hok]
  cases result with
  | none => exact ⟨0, self, rfl, .inl ⟨rfl, h⟩⟩
  | some allocated => exact ⟨_, _, rfl, .inr (hspec _ _ rfl)⟩

lemma Inv.try_allocate_locked_spec : ∃ address freelist, self.try_allocate_locked size = .ok (address, freelist) ∧
      (address = 0 ∧ freelist.Inv lists ∨ ∃ lists', Takes target lists size address freelist lists') := by
  obtain ⟨small, hsmall, hspec⟩ := h.allocate_small_spec hpos halign
  unfold try_allocate_locked
  rw [index_for_size_eq hpos halign, ok_bind, hsmall]
  cases small with
  | some allocated => exact ⟨_, _, rfl, .inr (hspec _ _ rfl)⟩
  | none =>
    obtain ⟨result, hsearch, hfound⟩ := h.search_large_spec size
    simp only [hsearch, ok_bind]
    cases result with
    | found previous current tries_left =>
      obtain ⟨before, block, after, hlist, rfl, rfl, hle⟩ := hfound
      have hmem : block ∈ lists kNumLists := hlist ▸ mem_append_right _ (.head _)
      obtain ⟨hinv, helem⟩ := h.unlink_large_spec hlist
      obtain ⟨freelist, lists', hsplit, htakes⟩ := hinv.split_takes h.apart (blocks_remove le_rfl hlist)
        (h.block_spec le_rfl hmem).1 helem hpos halign (by omega)
      simp only [hsplit, ok_bind, pure_eq_ok]
      exact ⟨_, _, rfl, .inr ⟨lists', htakes.inv.with_budget _, htakes.inside, htakes.bytes_eq⟩⟩
    | out_of_budget => exact ⟨_, _, rfl, .inl ⟨rfl, h.with_budget _⟩⟩
    | out_of_elements => exact ⟨_, _, rfl, .inl ⟨rfl, h⟩⟩

end dart.FreeList
