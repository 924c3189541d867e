import DartVM.Lib.Ranges
import DartVM.Platform.BitField
import DartVM.Platform.BitSet
import DartVM.Platform.Utils

namespace dart
open Nat

namespace WordSize
variable (target : WordSize)

def kObjectAlignment : Nat := 2 * target.kWordSize

def kObjectAlignmentLog2 : Nat := target.kWordSizeLog2 + 1

def kNewObjectAlignmentOffset : Nat := target.kWordSize

def kOldObjectAlignmentOffset : Nat := 0

lemma kObjectAlignment_eq : target.kObjectAlignment = 2 ^ target.kObjectAlignmentLog2 := by
  cases target <;> rfl

lemma shiftLeft_kObjectAlignmentLog2 (n : Nat) : n <<< target.kObjectAlignmentLog2 = n * target.kObjectAlignment := by
  rw [shiftLeft_eq, kObjectAlignment_eq]

lemma kWordSize_pos : 0 < target.kWordSize := by cases target <;> decide

lemma is_aligned_eq (x : Nat) :
    utils.is_aligned x target.kObjectAlignment 0 = .ok (decide (target.kObjectAlignment ∣ x)) := by
  rw [kObjectAlignment_eq]
  exact utils.is_aligned_two_pow x _

end WordSize

namespace untagged_object
variable (target : WordSize)

def kFreeListElement : Nat := 2

/-- A field of the tags word. -/
def tag (position size : Nat) (h : position + size ≤ 32 ∧ size < 32) : BitField target.kBitsPerWord where
  position := position
  size := size
  position_add_size_le := by cases target <;> exact Nat.le_trans h.1 (by decide)
  size_lt := by cases target <;> exact Nat.lt_of_lt_of_le h.2 (by decide)

def NotMarkedBit := tag target 2 1 (by decide)

def NewOrEvacuationCandidateBit := tag target 3 1 (by decide)

def AlwaysSetBit := tag target 4 1 (by decide)

def OldAndNotRememberedBit := tag target 5 1 (by decide)

def SizeBits := tag target 8 4 (by decide)

def ClassIdTag := tag target 12 20 (by decide)

def kMaxSizeTag : Nat := ((1 <<< 4) - 1) * target.kObjectAlignment

/-- Sizes that do not fit have the tag zero. -/
def size_to_tag_value (size : Nat) : Nat := if size ≤ kMaxSizeTag target then size >>> target.kObjectAlignmentLog2 else 0

def size_tag_decode (tags : BitVec target.kBitsPerWord) : Nat :=
  (SizeBits target).decode tags <<< target.kObjectAlignmentLog2

end untagged_object

open untagged_object ranges

/-- The words of the heap at their addresses. -/
def Memory (target : WordSize) : Type := Nat → BitVec target.kBitsPerWord

namespace Memory
variable {target : WordSize} (self : Memory target)

def store (address : Nat) (word : BitVec target.kBitsPerWord) : Memory target := Function.update self address word

def tags (element : Nat) : BitVec target.kBitsPerWord := self element

def next (element : Nat) : Nat := (self (element + target.kWordSize)).toNat

def set_next (element next : Nat) : Memory target :=
  self.store (element + target.kWordSize) (BitVec.ofNat _ next)

def size_address (target : WordSize) (element : Nat) : Nat := element + target.kWordSize + target.kWordSize

def heap_size (element : Nat) : Checked Nat := do
  check ((ClassIdTag target).decode (self.tags element) = kFreeListElement)
  let size := size_tag_decode target (self.tags element)
  if size ≠ 0 then
    return size
  return (self (size_address target element)).toNat

def element_tags (addr size : Nat) : Checked (BitVec target.kBitsPerWord) := do
  let tags ← (SizeBits target).update (size_to_tag_value target size) 0
  let tags ← (ClassIdTag target).update kFreeListElement tags
  check ((addr &&& target.kNewObjectAlignmentOffset) = WordSize.kOldObjectAlignmentOffset)
  let tags ← (AlwaysSetBit target).update 1 tags
  let tags ← (NotMarkedBit target).update 1 tags
  let tags ← (OldAndNotRememberedBit target).update 1 tags
  (NewOrEvacuationCandidateBit target).update 0 tags

/-- `AsElement` writes the header of a free block. -/
def as_element (addr size : Nat) : Checked (Memory target) := do
  check (size ≥ target.kObjectAlignment)
  check (← utils.is_aligned size target.kObjectAlignment 0)
  let memory := self.store addr (← element_tags addr size)
  let memory := if size > kMaxSizeTag target then
      memory.store (size_address target addr) (BitVec.ofNat _ size)
    else
      memory
  return memory.set_next addr 0

end Memory

/-- A block the heap can hold: aligned, not empty, inside the address space and not at the null address. -/
structure Allocatable (target : WordSize) (block : Block) : Prop where
  address_pos : 0 < block.address
  address_aligned : target.kObjectAlignment ∣ block.address
  size_aligned : target.kObjectAlignment ∣ block.size
  size_pos : 0 < block.size
  fits : block.address + block.size ≤ 2 ^ target.kBitsPerWord

/-- The header of a free block: sizes that do not fit the tag follow the link. -/
structure IsElement {target : WordSize} (memory : Memory target) (block : Block) : Prop where
  class_id : (ClassIdTag target).decode (memory.tags block.address) = kFreeListElement
  size : size_tag_decode target (memory.tags block.address) = block.size ∨
    size_tag_decode target (memory.tags block.address) = 0 ∧ kMaxSizeTag target < block.size ∧
      (memory (Memory.size_address target block.address)).toNat = block.size

section
variable {target : WordSize} {memory memory' : Memory target} {block : Block}

lemma size_tag_round_trip {size : Nat} (haligned : target.kObjectAlignment ∣ size) (hfits : size ≤ kMaxSizeTag target) :
    size_to_tag_value target size < 2 ^ 4 ∧ size_to_tag_value target size <<< target.kObjectAlignmentLog2 = size := by
  have halign := target.kObjectAlignment_eq
  have hpos : 0 < target.kObjectAlignment := by cases target <;> decide
  obtain ⟨units, rfl⟩ := haligned
  have hval : size_to_tag_value target (target.kObjectAlignment * units) = units := by
    rw [size_to_tag_value, if_pos hfits, shiftRight_eq_div_pow, ← halign, Nat.mul_div_cancel_left _ hpos]
  rw [hval, shiftLeft_eq, ← halign, Nat.mul_comm]
  refine ⟨?_, rfl⟩
  have hunits : units * target.kObjectAlignment ≤ 15 * target.kObjectAlignment := by
    rw [Nat.mul_comm]
    exact hfits
  have := Nat.le_of_mul_le_mul_right hunits hpos
  omega

lemma Allocatable.kObjectAlignment_le (h : Allocatable target block) : target.kObjectAlignment ≤ block.size :=
  le_of_dvd h.size_pos h.size_aligned

lemma Allocatable.and_offset (h : Allocatable target block) :
    block.address &&& target.kNewObjectAlignmentOffset = WordSize.kOldObjectAlignmentOffset := by
  obtain ⟨units, hunits⟩ := h.address_aligned
  have hoff : target.kNewObjectAlignmentOffset = 2 ^ target.kWordSizeLog2 := one_shiftLeft _
  have hbit : block.address.testBit target.kWordSizeLog2 = false := by
    rw [hunits, target.kObjectAlignment_eq, WordSize.kObjectAlignmentLog2, testBit_two_pow_mul]
    simp
  rw [hoff, and_two_pow, hbit, Bool.toNat_false, Nat.zero_mul, WordSize.kOldObjectAlignmentOffset]

/-- The flags below the size keep the size and the class. -/
lemma flag_update_spec {position : Nat} (h : position + 1 ≤ 32 ∧ 1 < 32) (hflag : position < 8) {value : Nat}
    (hval : value < 2) (tags : BitVec target.kBitsPerWord) :
    ∃ tags', (tag target position 1 h).update value tags = .ok tags' ∧
      (ClassIdTag target).decode tags' = (ClassIdTag target).decode tags ∧
      size_tag_decode target tags' = size_tag_decode target tags := by
  have hfits : value < 2 ^ (tag target position 1 h).size := hval
  obtain ⟨tags', hok, -, hother⟩ := BitField.update_spec hfits tags
  have hclass : (tag target position 1 h).Apart (ClassIdTag target) := .inl (show position + 1 ≤ 12 by omega)
  have hsize : (tag target position 1 h).Apart (SizeBits target) := .inl (show position + 1 ≤ 8 by omega)
  exact ⟨tags', hok, hother _ hclass, by rw [size_tag_decode, hother _ hsize, size_tag_decode]⟩

open Memory

/-- The tags of a free block. -/
lemma element_tags_spec (h : Allocatable target block) : ∃ tags, element_tags block.address block.size = .ok tags ∧
      (ClassIdTag target).decode tags = kFreeListElement ∧
      size_tag_decode target tags = if block.size ≤ kMaxSizeTag target then block.size else 0 := by
  have hval : size_to_tag_value target block.size < 2 ^ (SizeBits target).size ∧
      size_to_tag_value target block.size <<< target.kObjectAlignmentLog2 =
        if block.size ≤ kMaxSizeTag target then block.size else 0 := by
    by_cases hfits : block.size ≤ kMaxSizeTag target
    · rw [if_pos hfits]
      exact size_tag_round_trip h.size_aligned hfits
    · rw [if_neg hfits, size_to_tag_value, if_neg hfits, zero_shiftLeft]
      exact ⟨Nat.two_pow_pos _, rfl⟩
  have hclass : kFreeListElement < 2 ^ (ClassIdTag target).size := show 2 < 2 ^ 20 by decide
  have hapart : (ClassIdTag target).Apart (SizeBits target) := .inr (show 8 + 4 ≤ 12 by decide)
  obtain ⟨tags1, hok1, hsize1, -⟩ := BitField.update_spec hval.1 (0 : BitVec target.kBitsPerWord)
  obtain ⟨tags2, hok2, hclass2, hother2⟩ := BitField.update_spec hclass tags1
  obtain ⟨tags3, hok3, hclass3, hsize3⟩ : ∃ tags, (AlwaysSetBit target).update 1 tags2 = .ok tags ∧ _ :=
    flag_update_spec (by decide) (by decide) (by decide) tags2
  obtain ⟨tags4, hok4, hclass4, hsize4⟩ : ∃ tags, (NotMarkedBit target).update 1 tags3 = .ok tags ∧ _ :=
    flag_update_spec (by decide) (by decide) (by decide) tags3
  obtain ⟨tags5, hok5, hclass5, hsize5⟩ : ∃ tags, (OldAndNotRememberedBit target).update 1 tags4 = .ok tags ∧ _ :=
    flag_update_spec (by decide) (by decide) (by decide) tags4
  obtain ⟨tags6, hok6, hclass6, hsize6⟩ : ∃ tags, (NewOrEvacuationCandidateBit target).update 0 tags5 = .ok tags ∧ _ :=
    flag_update_spec (by decide) (by decide) (by decide) tags5
  refine ⟨tags6, ?_, ?_, ?_⟩
  · simp only [element_tags, hok1, hok2, hok3, hok4, hok5, hok6, ok_bind, h.and_offset, decide_true, check_true]
  · rw [hclass6, hclass5, hclass4, hclass3, hclass2]
  · rw [hsize6, hsize5, hsize4, hsize3, size_tag_decode, hother2 _ hapart, hsize1, hval.2]

lemma Memory.store_apply (memory : Memory target) (address : Nat) (word : BitVec target.kBitsPerWord) (a : Nat) :
    memory.store address word a = if a = address then word else memory a := Function.update_apply ..

lemma IsElement.heap_size (h : IsElement memory block) (hpos : 0 < block.size) :
    memory.heap_size block.address = .ok block.size := by
  unfold Memory.heap_size
  simp only [h.class_id, decide_true, check_true, ok_bind]
  obtain hsize | ⟨h0, -, hsize⟩ := h.size
  · rw [hsize, if_pos (by omega), pure_eq_ok]
  · rw [h0, if_neg (by simp), hsize, pure_eq_ok]

/-- A header is inside its block. -/
lemma Allocatable.header_mem (h : Allocatable target block) :
    block.address ∈ block.bytes ∧ block.address + target.kWordSize ∈ block.bytes ∧
      (kMaxSizeTag target < block.size → size_address target block.address ∈ block.bytes) := by
  have hle := h.kObjectAlignment_le
  have hpos := target.kWordSize_pos
  unfold WordSize.kObjectAlignment at hle
  refine ⟨⟨by omega, by omega⟩, ⟨by omega, by omega⟩, fun hbig => ⟨?_, ?_⟩⟩
  · unfold size_address
    omega
  · change 15 * (2 * target.kWordSize) < block.size at hbig
    unfold size_address
    omega

/-- Whatever happens outside a free block leaves its header alone. -/
lemma IsElement.congr (h : IsElement memory block) (hblk : Allocatable target block)
    (hsame : ∀ a ∈ block.bytes, memory' a = memory a) :
    IsElement memory' block ∧ memory'.next block.address = memory.next block.address := by
  obtain ⟨htags, hnext, hbig⟩ := hblk.header_mem
  have htags' : memory'.tags block.address = memory.tags block.address := hsame _ htags
  refine ⟨⟨by rw [htags', h.class_id], ?_⟩, by rw [next, hsame _ hnext, next]⟩
  obtain hsize | ⟨h0, hgt, hsize⟩ := h.size
  · exact .inl (by rw [htags', hsize])
  · exact .inr ⟨by rw [htags', h0], hgt, by rw [hsame _ (hbig hgt), hsize]⟩

/-- `AsElement` makes a free block and writes nowhere else. -/
lemma as_element_spec (memory : Memory target) (h : Allocatable target block) :
    ∃ memory', memory.as_element block.address block.size = .ok memory' ∧ IsElement memory' block ∧
      ∀ a, a ∉ block.bytes → memory' a = memory a := by
  obtain ⟨tags, htags, hclass, hsize⟩ := element_tags_spec h
  obtain ⟨haddr, hnext, hbig⟩ := h.header_mem
  have hle : block.size ≥ target.kObjectAlignment := h.kObjectAlignment_le
  have hword := target.kWordSize_pos
  have hok : memory.as_element block.address block.size = .ok
      ((if block.size > kMaxSizeTag target then (memory.store block.address tags).store
          (size_address target block.address) (BitVec.ofNat _ block.size)
        else memory.store block.address tags).set_next block.address 0) := by
    simp [as_element, decide_eq_true hle, target.is_aligned_eq, decide_eq_true h.size_aligned, htags]
  have hstored (a : Nat) (hne : a ≠ block.address + target.kWordSize) :
      ((if block.size > kMaxSizeTag target then (memory.store block.address tags).store
          (size_address target block.address) (BitVec.ofNat _ block.size)
        else memory.store block.address tags).set_next block.address 0) a =
      if a = size_address target block.address ∧ kMaxSizeTag target < block.size then BitVec.ofNat _ block.size
      else if a = block.address then tags else memory a := by
    rw [set_next, store_apply, if_neg hne]
    by_cases hgt : kMaxSizeTag target < block.size <;> simp [hgt, store_apply]
  generalize (if block.size > kMaxSizeTag target then (memory.store block.address tags).store
      (size_address target block.address) (BitVec.ofNat _ block.size)
    else memory.store block.address tags).set_next block.address 0 = memory' at hok hstored
  have hplace : block.address ≠ size_address target block.address ∧
      size_address target block.address ≠ block.address + target.kWordSize := by
    unfold size_address
    omega
  have htags' : memory'.tags block.address = tags := by
    rw [Memory.tags, hstored _ (by omega), if_neg fun hsame => hplace.1 hsame.1, if_pos rfl]
  refine ⟨memory', hok, ⟨by rw [htags', hclass], ?_⟩, ?_⟩
  · by_cases hfits : block.size ≤ kMaxSizeTag target
    · exact .inl (by rw [htags', hsize, if_pos hfits])
    have hbound := h.fits
    have hpos := h.address_pos
    refine .inr ⟨by rw [htags', hsize, if_neg hfits], by omega, ?_⟩
    rw [hstored _ hplace.2, if_pos ⟨rfl, by omega⟩, BitVec.toNat_ofNat, mod_eq_of_lt (by omega)]
  · intro a ha
    have hne (b : Nat) (hb : b ∈ block.bytes) : a ≠ b := fun heq => ha (heq ▸ hb)
    rw [hstored a (hne _ hnext), if_neg fun hsame => hne _ (hbig hsame.2) hsame.1, if_neg (hne _ haddr)]

/-- The link is not part of the rest of the header. -/
lemma IsElement.set_next (h : IsElement memory block) (hblk : Allocatable target block) {element : Nat}
    (hapart : element = block.address ∨ element + target.kWordSize ∉ block.bytes) (next : Nat) :
    IsElement (memory.set_next element next) block := by
  have hpos := target.kWordSize_pos
  obtain ⟨haddr, hnext, hbig⟩ := hblk.header_mem
  have hne {a : Nat} (ha : a ∈ block.bytes) (hlink : a ≠ block.address + target.kWordSize) :
      memory.set_next element next a = memory a := by
    rw [Memory.set_next, Memory.store_apply, if_neg fun heq => ?_]
    rcases hapart with rfl | hout
    · exact hlink heq
    · exact hout (heq ▸ ha)
  have htags : (memory.set_next element next).tags block.address = memory.tags block.address := hne haddr (by omega)
  refine ⟨by rw [htags, h.class_id], ?_⟩
  obtain hsize | ⟨h0, hgt, hsize⟩ := h.size
  · exact .inl (by rw [htags, hsize])
  · refine .inr ⟨by rw [htags, h0], hgt, ?_⟩
    rw [hne (hbig hgt) (by unfold size_address; omega), hsize]

lemma Memory.next_set_next (memory : Memory target) {next : Nat} (hnext : next < 2 ^ target.kBitsPerWord)
    (element other : Nat) : (memory.set_next element next).next other = if other = element then next else
    memory.next other := by
  rw [Memory.next, Memory.set_next, Memory.store_apply, Memory.next]
  by_cases heq : other = element
  · rw [if_pos (by rw [heq]), if_pos heq, BitVec.toNat_ofNat, mod_eq_of_lt hnext]
  · rw [if_neg (by omega), if_neg heq]

end

open untagged_object

def kNumLists : Nat := 128

def kInitialFreeListSearchBudget : Int := 1000

/-- The free list: a list for each small size and one for the large ones, in the memory they are linked through. -/
structure FreeList (target : WordSize) where
  memory : Memory target
  free_map : BitSet target kNumLists
  free_lists : List Nat
  freelist_search_budget : Int
  last_free_small_size : Int

/-- Why a search of the last list ended. -/
inductive Search where
  | found (previous current : Nat) (tries_left : Int)
  | out_of_budget
  | out_of_elements
deriving DecidableEq

namespace FreeList
variable {target : WordSize}

def index_for_size (target : WordSize) (size : Nat) : Checked Nat := do
  check (size ≥ target.kObjectAlignment)
  check (← utils.is_aligned size target.kObjectAlignment 0)
  let index := size >>> target.kObjectAlignmentLog2
  return if index ≥ kNumLists then kNumLists else index

variable (self : FreeList target)

def reset : FreeList target := { self with
  free_map := .reset
  free_lists := List.replicate (kNumLists + 1) 0
  last_free_small_size := -1 }

def list (index : Nat) : Checked Nat :=
  match self.free_lists[index]? with
  | some head => .ok head
  | none => .error .out_of_bounds

def set_list (index head : Nat) : FreeList target := { self with free_lists := self.free_lists.set index head }

/-- A small list may get its first element. -/
def mark_enqueued (index next : Nat) : Checked (FreeList target) :=
  if next = 0 ∧ index ≠ kNumLists then do
    let free_map ← self.free_map.set index true
    let last_free_small_size := max self.last_free_small_size ↑(index <<< target.kObjectAlignmentLog2)
    return { self with free_map, last_free_small_size }
  else
    .ok self

def enqueue_element (element index : Nat) : Checked (FreeList target) := do
  let next ← self.list index
  let list ← self.mark_enqueued index next
  return { list with memory := list.memory.set_next element next }.set_list index element

/-- A small list may lose its last element. -/
def mark_dequeued (index next : Nat) : Checked (FreeList target) :=
  if next = 0 ∧ index ≠ kNumLists then
    let size := index <<< target.kObjectAlignmentLog2
    if ↑size = self.last_free_small_size then do
      let (previous, free_map) ← self.free_map.clear_last_and_find_previous index
      return { self with free_map, last_free_small_size := previous * ↑target.kObjectAlignment }
    else do
      let free_map ← self.free_map.set index false
      return { self with free_map }
  else
    .ok self

def dequeue_element (index : Nat) : Checked (Nat × FreeList target) := do
  let result ← self.list index
  if result = 0 then
    .error .out_of_bounds
  else
    let next := self.memory.next result
    let list ← self.mark_dequeued index next
    return (result, list.set_list index next)

def split_element_after_and_enqueue (element size : Nat) : Checked (FreeList target) := do
  let remainder_size := (← self.memory.heap_size element) - size
  if remainder_size = 0 then
    return self
  let remainder_address := element + size
  let memory ← self.memory.as_element remainder_address remainder_size
  let remainder_index ← index_for_size target remainder_size
  { self with memory }.enqueue_element remainder_address remainder_index

def has_exact (index : Nat) : Checked Bool := if index ≠ kNumLists then self.free_map.test index else .ok false

/-- The part `TryAllocateLocked` and `TryAllocateSmallLocked` share: an element of the size, or the front of
an element of a larger small size. -/
def allocate_small (index size : Nat) : Checked (Option (Nat × FreeList target)) := do
  if ← self.has_exact index then
    return some (← self.dequeue_element index)
  if index + 1 < kNumLists then
    let next_index ← self.free_map.next (index + 1)
    if next_index ≠ -1 then
      let (element, list) ← self.dequeue_element next_index.toNat
      return some (element, ← list.split_element_after_and_enqueue element size)
  return none

/-- The search of the last list for an element of at least a size. -/
def search (size : Int) : Nat → Nat → Nat → Int → Checked Search
  | 0, _, _, _ => .error .out_of_fuel
  | fuel + 1, previous, current, tries_left => do
    if current = 0 then
      return .out_of_elements
    if ↑(← self.memory.heap_size current) ≥ size then
      return .found previous current tries_left
    else if tries_left < 0 then
      return .out_of_budget
    else
      search size fuel current (self.memory.next current) (tries_left - 1)

/-- The search ends when the budget is used up. -/
def search_large (size : Int) : Checked Search := do
  let current ← self.list kNumLists
  let tries_left := self.freelist_search_budget + size >>> target.kWordSizeLog2
  self.search size ((tries_left + 1).toNat + 1) 0 current tries_left

def unlink_large (previous current : Nat) : FreeList target :=
  if previous = 0 then
    self.set_list kNumLists (self.memory.next current)
  else
    { self with memory := self.memory.set_next previous (self.memory.next current) }

/-- Returns the null address if there is no element. -/
def try_allocate_locked (size : Nat) : Checked (Nat × FreeList target) := do
  let index ← index_for_size target size
  match ← self.allocate_small index size with
  | some allocated => return allocated
  | none =>
    match ← self.search_large size with
    | .found previous current tries_left =>
      let list ← (self.unlink_large previous current).split_element_after_and_enqueue current size
      return (current, { list with freelist_search_budget := min tries_left kInitialFreeListSearchBudget })
    | .out_of_budget => return (0, { self with freelist_search_budget := kInitialFreeListSearchBudget })
    | .out_of_elements => return (0, self)

def try_allocate_small_locked (size : Nat) : Checked (Nat × FreeList target) := do
  if ↑size > self.last_free_small_size then
    return (0, self)
  let index ← index_for_size target size
  return (← self.allocate_small index size).getD (0, self)

def try_allocate_large_locked (minimum_size : Int) : Checked (Nat × FreeList target) := do
  match ← self.search_large minimum_size with
  | .found previous current tries_left =>
    return (current, { self.unlink_large previous current with
      freelist_search_budget := min tries_left kInitialFreeListSearchBudget })
  | .out_of_budget => return (0, { self with freelist_search_budget := kInitialFreeListSearchBudget })
  | .out_of_elements => return (0, self)

def free_locked (addr size : Nat) : Checked (FreeList target) := do
  let index ← index_for_size target size
  let memory ← self.memory.as_element addr size
  { self with memory }.enqueue_element addr index

end FreeList
end dart
