import Mathlib.Order.Basic

namespace dart.sorted_merge
open List
variable {α : Type} (key : α → Nat)

/-- The elements are in the order of their keys, which are different. -/
def Sorted (l : List α) : Prop := l.Pairwise fun a b => key a < key b

/-- Merges two sorted lists; two elements with the same key are combined. -/
def merge (combine : α → α → α) : List α → List α → List α
  | [], ys => ys
  | x :: xs, [] => x :: xs
  | x :: xs, y :: ys =>
    if key x < key y then x :: merge combine xs (y :: ys)
    else if key y < key x then y :: merge combine (x :: xs) ys
    else combine x y :: merge combine xs ys
termination_by xs ys => xs.length + ys.length

/-- The combinations of two elements with the same key, where there is one. -/
def meet (combine : α → α → Option α) : List α → List α → List α
  | [], _ => []
  | _ :: _, [] => []
  | x :: xs, y :: ys =>
    if key x < key y then meet combine xs (y :: ys)
    else if key y < key x then meet combine (x :: xs) ys
    else (combine x y).toList ++ meet combine xs ys
termination_by xs ys => xs.length + ys.length

variable {key} {xs ys : List α} {combine : α → α → Option α} {z : α} {x y : α} {n : Nat}

lemma Sorted.key_lt (h : Sorted key (x :: xs)) (hy : y ∈ xs) : key x < key y := rel_of_pairwise_cons h hy

lemma Sorted.lt_key (h : Sorted key (x :: xs)) (hn : n < key x) (hy : y ∈ x :: xs) : n < key y := by
  obtain rfl | hy := mem_cons.mp hy
  · exact hn
  · exact Nat.lt_trans hn (h.key_lt hy)

section
variable {combine : α → α → α}

/-- Where the elements of a merge come from. -/
lemma mem_merge (h : z ∈ merge key combine xs ys) :
    z ∈ xs ∨ z ∈ ys ∨ ∃ x ∈ xs, ∃ y ∈ ys, key x = key y ∧ z = combine x y := by
  fun_induction merge key combine xs ys with
  | case1 ys => exact .inr (.inl h)
  | case2 x xs => exact .inl h
  | case3 x xs y ys hlt ih =>
    rcases mem_cons.mp h with rfl | h
    · exact .inl (.head _)
    rcases ih h with h | h | ⟨a, ha, b, hb, hkey, rfl⟩
    · exact .inl (.tail _ h)
    · exact .inr (.inl h)
    · exact .inr (.inr ⟨a, .tail _ ha, b, hb, hkey, rfl⟩)
  | case4 x xs y ys _ hlt ih =>
    rcases mem_cons.mp h with rfl | h
    · exact .inr (.inl (.head _))
    rcases ih h with h | h | ⟨a, ha, b, hb, hkey, rfl⟩
    · exact .inl h
    · exact .inr (.inl (.tail _ h))
    · exact .inr (.inr ⟨a, ha, b, .tail _ hb, hkey, rfl⟩)
  | case5 x xs y ys hle hge ih =>
    rcases mem_cons.mp h with rfl | h
    · exact .inr (.inr ⟨x, (.head _), y, (.head _), by omega, rfl⟩)
    rcases ih h with h | h | ⟨a, ha, b, hb, hkey, rfl⟩
    · exact .inl (.tail _ h)
    · exact .inr (.inl (.tail _ h))
    · exact .inr (.inr ⟨a, .tail _ ha, b, .tail _ hb, hkey, rfl⟩)

section
variable (hcomb : ∀ x y, key x = key y → key (combine x y) = key x)
include hcomb

lemma lt_of_mem_merge (hxs : ∀ x ∈ xs, n < key x) (hys : ∀ y ∈ ys, n < key y)
    (h : z ∈ merge key combine xs ys) : n < key z := by
  rcases mem_merge h with h | h | ⟨x, hx, y, -, hkey, rfl⟩
  · exact hxs z h
  · exact hys z h
  · rw [hcomb x y hkey]
    exact hxs x hx

lemma merge_sorted (hxs : Sorted key xs) (hys : Sorted key ys) : Sorted key (merge key combine xs ys) := by
  fun_induction merge key combine xs ys with
  | case1 ys => exact hys
  | case2 x xs => exact hxs
  | case3 x xs y ys hlt ih =>
    refine pairwise_cons.mpr ⟨fun z hz => ?_, ih hxs.of_cons hys⟩
    exact lt_of_mem_merge hcomb (fun a ha => hxs.key_lt ha) (fun b hb => hys.lt_key hlt hb) hz
  | case4 x xs y ys _ hlt ih =>
    refine pairwise_cons.mpr ⟨fun z hz => ?_, ih hxs hys.of_cons⟩
    exact lt_of_mem_merge hcomb (fun a ha => hxs.lt_key hlt ha) (fun b hb => hys.key_lt hb) hz
  | case5 x xs y ys hle hge ih =>
    have hkey : key x = key y := by omega
    refine pairwise_cons.mpr ⟨fun z hz => ?_, ih hxs.of_cons hys.of_cons⟩
    rw [hcomb x y hkey]
    exact lt_of_mem_merge hcomb (fun a ha => hxs.key_lt ha) (fun b hb => hkey ▸ hys.key_lt hb) hz

end

/-- Every element is in the merge, by itself or combined. -/
lemma mem_merge_left {x : α} (h : x ∈ xs) :
    x ∈ merge key combine xs ys ∨ ∃ y ∈ ys, key x = key y ∧ combine x y ∈ merge key combine xs ys := by
  fun_induction merge key combine xs ys with
  | case1 ys => exact absurd h not_mem_nil
  | case2 a xs => exact .inl h
  | case3 a xs b ys hlt ih =>
    rcases mem_cons.mp h with rfl | h
    · exact .inl (.head _)
    · exact (ih h).imp (mem_cons_of_mem _) fun ⟨y, hy, hkey, hmem⟩ => ⟨y, hy, hkey, .tail _ hmem⟩
  | case4 a xs b ys _ hlt ih =>
    exact (ih h).imp (mem_cons_of_mem _) fun ⟨y, hy, hkey, hmem⟩ =>
      ⟨y, .tail _ hy, hkey, .tail _ hmem⟩
  | case5 a xs b ys hle hge ih =>
    rcases mem_cons.mp h with rfl | h
    · exact .inr ⟨b, (.head _), by omega, (.head _)⟩
    · exact (ih h).imp (mem_cons_of_mem _) fun ⟨y, hy, hkey, hmem⟩ =>
        ⟨y, .tail _ hy, hkey, .tail _ hmem⟩

lemma merge_swap : merge key combine xs ys = merge key (fun y x => combine x y) ys xs := by
  fun_induction merge key combine xs ys with
  | case1 ys => cases ys <;> rw [merge]
  | case2 x xs => rw [merge]
  | case3 x xs y ys hlt ih => rw [merge, if_neg (by omega), if_pos hlt, ih]
  | case4 x xs y ys _ hlt ih => rw [merge, if_pos hlt, ih]
  | case5 x xs y ys hle hge ih => rw [merge, if_neg hge, if_neg hle, ih]

lemma mem_merge_right {y : α} (h : y ∈ ys) :
    y ∈ merge key combine xs ys ∨ ∃ x ∈ xs, key x = key y ∧ combine x y ∈ merge key combine xs ys := by
  rw [merge_swap]
  exact (mem_merge_left h).imp_right fun ⟨x, hx, hkey, hmem⟩ => ⟨x, hx, hkey.symm, hmem⟩

lemma length_le_merge : xs.length ≤ (merge key combine xs ys).length := by
  fun_induction merge key combine xs ys <;> simp only [length_cons, length_nil] at * <;> omega

end

/-- Where the elements of a meet come from. -/
lemma mem_meet (h : z ∈ meet key combine xs ys) : ∃ x ∈ xs, ∃ y ∈ ys, key x = key y ∧ combine x y = some z := by
  fun_induction meet key combine xs ys with
  | case1 ys | case2 x xs => exact absurd h not_mem_nil
  | case3 x xs y ys hlt ih =>
    obtain ⟨a, ha, b, hb, hkey⟩ := ih h
    exact ⟨a, .tail _ ha, b, hb, hkey⟩
  | case4 x xs y ys _ hlt ih =>
    obtain ⟨a, ha, b, hb, hkey⟩ := ih h
    exact ⟨a, ha, b, .tail _ hb, hkey⟩
  | case5 x xs y ys hle hge ih =>
    rcases mem_append.mp h with h | h
    · exact ⟨x, (.head _), y, (.head _), by omega, Option.mem_toList.mp h⟩
    · obtain ⟨a, ha, b, hb, hkey⟩ := ih h
      exact ⟨a, .tail _ ha, b, .tail _ hb, hkey⟩

lemma meet_sorted (hcomb : ∀ x ∈ xs, ∀ y ∈ ys, ∀ z, combine x y = some z → key z = key x) (hxs : Sorted key xs)
    (hys : Sorted key ys) : Sorted key (meet key combine xs ys) := by
  fun_induction meet key combine xs ys with
  | case1 ys | case2 x xs => exact Pairwise.nil
  | case3 x xs y ys hlt ih => exact ih (fun a ha => hcomb a (.tail _ ha)) hxs.of_cons hys
  | case4 x xs y ys _ hlt ih => exact ih (fun a ha b hb => hcomb a ha b (.tail _ hb)) hxs hys.of_cons
  | case5 x xs y ys hle hge ih =>
    refine pairwise_append.mpr ⟨?_, ih ?_ hxs.of_cons hys.of_cons, fun a ha b hb => ?_⟩
    · cases combine x y with
      | none => exact Pairwise.nil
      | some z => exact pairwise_singleton _ z
    · exact fun a ha b hb => hcomb a (.tail _ ha) b (.tail _ hb)
    · obtain ⟨x', hx', y', hy', -, hb⟩ := mem_meet hb
      rw [hcomb x mem_cons_self y mem_cons_self a (Option.mem_toList.mp ha),
        hcomb x' (.tail _ hx') y' (.tail _ hy') b hb]
      exact hxs.key_lt hx'

/-- Two elements with the same key meet. -/
lemma mem_meet_of_key_eq {x y z : α} (hxs : Sorted key xs) (hys : Sorted key ys) (hx : x ∈ xs) (hy : y ∈ ys)
    (hkey : key x = key y) (hz : combine x y = some z) : z ∈ meet key combine xs ys := by
  fun_induction meet key combine xs ys with
  | case1 ys => exact absurd hx not_mem_nil
  | case2 a xs => exact absurd hy not_mem_nil
  | case3 a xs b ys hlt ih =>
    refine ih hxs.of_cons hys ((mem_cons.mp hx).resolve_left ?_) hy
    rintro rfl
    exact absurd hkey (Nat.ne_of_lt (hys.lt_key hlt hy))
  | case4 a xs b ys _ hlt ih =>
    refine ih hxs hys.of_cons hx ((mem_cons.mp hy).resolve_left ?_)
    rintro rfl
    exact absurd hkey (Nat.ne_of_gt (hxs.lt_key hlt hx))
  | case5 a xs b ys hle hge ih =>
    rcases mem_cons.mp hx with rfl | hx
    · rcases mem_cons.mp hy with rfl | hy
      · exact mem_append_left _ (Option.mem_toList.mpr hz)
      · have hgt := hys.key_lt hy
        omega
    rcases mem_cons.mp hy with rfl | hy
    · have hgt := hxs.key_lt hx
      omega
    · exact mem_append_right _ (ih hxs.of_cons hys.of_cons hx hy)

end dart.sorted_merge
