import Mathlib.Data.List.Pairwise
import Mathlib.Data.List.Perm.Basic
import Mathlib.Data.Set.Basic

namespace dart.ranges

/-- A range of addresses. -/
structure Block where
  address : Nat
  size : Nat
deriving DecidableEq

namespace Block

def bytes (block : Block) : Set Nat := {a | block.address ≤ a ∧ a < block.address + block.size}

/-- One range ends before the other starts. -/
def Apart (block other : Block) : Prop :=
  block.address + block.size ≤ other.address ∨ other.address + other.size ≤ block.address

variable {block other : Block}

lemma Apart.symm (h : block.Apart other) : other.Apart block := Or.symm h

instance : Std.Symm Apart := ⟨fun _ _ h => h.symm⟩

lemma Apart.notMem (h : block.Apart other) {a : Nat} (ha : a ∈ block.bytes) : a ∉ other.bytes := by
  rintro ⟨hle, hlt⟩
  obtain ⟨hle', hlt'⟩ := ha
  unfold Apart at h
  omega

/-- A part of a range is apart from what the range is apart from. -/
lemma Apart.part {block part other : Block} (h : block.Apart other) (hstart : block.address ≤ part.address)
    (hend : part.address + part.size ≤ block.address + block.size) : part.Apart other := by
  unfold Apart at h ⊢
  omega

end Block

/-- The bytes of a collection of ranges. -/
def bytes (blocks : List Block) : Set Nat := {a | ∃ block ∈ blocks, a ∈ block.bytes}

variable {blocks blocks' rest : List Block} {block : Block}

lemma bytes_perm (h : blocks.Perm blocks') : bytes blocks = bytes blocks' := by
  ext a
  exact exists_congr fun block => and_congr_left fun _ => h.mem_iff

lemma bytes_cons (block : Block) (blocks : List Block) : bytes (block :: blocks) = block.bytes ∪ bytes blocks := by
  ext a
  simp [bytes]

lemma pairwise_apart_perm (h : blocks.Perm blocks') (hapart : blocks.Pairwise Block.Apart) :
    blocks'.Pairwise Block.Apart := (h.pairwise_iff fun hab => hab.symm).mp hapart

variable (hperm : (block :: rest).Perm blocks) (hapart : blocks.Pairwise Block.Apart)
include hperm hapart

/-- Taking a range away takes exactly its bytes away. -/
lemma bytes_remove : bytes rest = bytes blocks \ block.bytes := by
  have hcons := pairwise_apart_perm hperm.symm hapart
  rw [List.pairwise_cons] at hcons
  rw [← bytes_perm hperm, bytes_cons]
  ext a
  constructor
  · rintro ⟨other, hmem, ha⟩
    exact ⟨.inr ⟨other, hmem, ha⟩, (hcons.1 other hmem).symm.notMem ha⟩
  · rintro ⟨ha | ha, hnot⟩
    · exact absurd ha hnot
    · exact ha

/-- Taking the front of a range away leaves its remainder. -/
lemma bytes_split {size : Nat} (hle : size ≤ block.size) :
    bytes (⟨block.address + size, block.size - size⟩ :: rest) = bytes blocks \ Block.bytes ⟨block.address, size⟩ := by
  have hcons := pairwise_apart_perm hperm.symm hapart
  rw [List.pairwise_cons] at hcons
  rw [← bytes_perm hperm, bytes_cons, bytes_cons]
  ext a
  simp only [Set.mem_union, Set.mem_sdiff, Block.bytes, Set.mem_ofPred_eq]
  constructor
  · rintro (ha | ⟨other, hmem, ha⟩)
    · exact ⟨.inl (by omega), by omega⟩
    · refine ⟨.inr ⟨other, hmem, ha⟩, fun hfront => ?_⟩
      exact (hcons.1 other hmem).notMem ⟨hfront.1, by omega⟩ ha
  · rintro ⟨ha | ha, hnot⟩
    · exact .inl (by omega)
    · exact .inr ha

end dart.ranges
