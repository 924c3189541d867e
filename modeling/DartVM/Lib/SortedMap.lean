import Mathlib.Data.List.Sort

namespace dart.sorted_map
open List
variable {K V : Type}

/-- A comparison function that is a total preorder. -/
structure TotalPreorder (compare : K → K → Int) : Prop where
  flip : ∀ a b, compare a b < 0 ↔ 0 < compare b a
  trans : ∀ a b c, compare a b ≤ 0 → compare b c ≤ 0 → compare a c ≤ 0

namespace TotalPreorder
variable {compare : K → K → Int} (h : TotalPreorder compare) {a b c : K}
include h

lemma refl (a : K) : compare a a = 0 := by
  have := h.flip a a
  omega

lemma symm (hab : compare a b = 0) : compare b a = 0 := by
  have := h.flip a b
  have := h.flip b a
  omega

lemma lt_of_lt_of_le (hab : compare a b < 0) (hbc : compare b c ≤ 0) : compare a c < 0 := by
  by_contra hnot
  have hca : compare c a ≤ 0 := by
    have := h.flip a c
    omega
  have := h.trans b c a hbc hca
  have := h.flip a b
  omega

lemma lt_of_le_of_lt (hab : compare a b ≤ 0) (hbc : compare b c < 0) : compare a c < 0 := by
  by_contra hnot
  have hca : compare c a ≤ 0 := by
    have := h.flip a c
    omega
  have := h.trans c a b hca hab
  have := h.flip b c
  omega

lemma pos_of_pos_of_lt (hac : 0 < compare a c) (hab : compare a b < 0) : 0 < compare b c :=
  (h.flip c b).mp (h.lt_of_lt_of_le ((h.flip c a).mpr hac) (by omega))

end TotalPreorder

section
variable (compare : K → K → Int) (key : K)

/-- The keys are increasing, so that no two are equal. -/
def Sorted (entries : List (K × V)) : Prop := entries.Pairwise fun a b => compare a.1 b.1 < 0

/-- The entry of a key. -/
def find (entries : List (K × V)) : Option (K × V) := entries.find? fun e => compare e.1 key = 0

/-- Changes the value of a key, or adds a new entry. -/
def insert (value : V) : List (K × V) → List (K × V)
  | [] => [(key, value)]
  | e :: entries =>
    if compare e.1 key < 0 then e :: insert value entries
    else if compare e.1 key = 0 then (e.1, value) :: entries
    else (key, value) :: e :: entries

variable (entries : List (K × V))

def erase : List (K × V) := entries.filter fun e => compare e.1 key ≠ 0

/-- The entries of smaller keys. -/
def before : List (K × V) := entries.filter fun e => compare e.1 key < 0

/-- The entries of larger keys. -/
def after : List (K × V) := entries.filter fun e => 0 < compare e.1 key

variable {compare : K → K → Int} {key : K} {a b : List (K × V)} {e : K × V}

/-- The entries are split by a key that is not there. -/
structure Split (compare : K → K → Int) (key : K) (a b : List (K × V)) : Prop where
  lt : ∀ e ∈ a, compare e.1 key < 0
  gt : ∀ e ∈ b, 0 < compare e.1 key

namespace Split
variable (h : Split compare key a b)
include h

lemma find_append : find compare key (a ++ b) = none := by
  rw [find, find?_eq_none]
  intro e he
  obtain he | he := mem_append.mp he
  · have := h.lt e he
    simp only [decide_eq_true_eq]
    omega
  have := h.gt e he
  simp only [decide_eq_true_eq]
  omega

lemma find_cons (he : compare e.1 key = 0) : find compare key (a ++ e :: b) = some e := by
  have hnone : a.find? (fun e => compare e.1 key = 0) = none := by
    rw [find?_eq_none]
    intro e he
    have := h.lt e he
    simp only [decide_eq_true_eq]
    omega
  rw [find, find?_append, hnone, Option.none_or]
  exact find?_cons_of_pos (by simpa using he)

lemma insert_append (value : V) : insert compare key value (a ++ b) = a ++ (key, value) :: b := by
  obtain ⟨hlt, hgt⟩ := h
  induction a with
  | nil =>
    cases b with
    | nil => rfl
    | cons e b =>
      have := hgt e (.head _)
      rw [nil_append, insert, if_neg (by omega), if_neg (by omega)]
      rfl
  | cons e a ih =>
    rw [forall_mem_cons] at hlt
    rw [cons_append, insert, if_pos hlt.1, ih hlt.2]
    rfl

lemma insert_cons (he : compare e.1 key = 0) (value : V) :
    insert compare key value (a ++ e :: b) = a ++ (e.1, value) :: b := by
  obtain ⟨hlt, hgt⟩ := h
  induction a with
  | nil => rw [nil_append, insert, if_neg (by omega), if_pos he, nil_append]
  | cons e a ih =>
    rw [forall_mem_cons] at hlt
    rw [cons_append, insert, if_pos hlt.1, ih hlt.2]
    rfl

lemma erase_append : erase compare key (a ++ b) = a ++ b := by
  rw [erase, filter_eq_self]
  intro e he
  obtain he | he := mem_append.mp he
  · have := h.lt e he
    exact decide_eq_true (by omega)
  · have := h.gt e he
    exact decide_eq_true (by omega)

lemma erase_cons (he : compare e.1 key = 0) : erase compare key (a ++ e :: b) = a ++ b := by
  rw [← h.erase_append, erase, erase, filter_append, filter_append, filter_cons_of_neg (by simp [he])]

lemma before_append : before compare key (a ++ b) = a := by
  have hb : b.filter (fun e => compare e.1 key < 0) = [] := by
    rw [filter_eq_nil_iff]
    intro e he
    have := h.gt e he
    simp only [decide_eq_true_eq]
    omega
  rw [before, filter_append, hb, append_nil, filter_eq_self]
  exact fun e he => decide_eq_true (h.lt e he)

lemma after_append : after compare key (a ++ b) = b := by
  have ha : a.filter (fun e => 0 < compare e.1 key) = [] := by
    rw [filter_eq_nil_iff]
    intro e he
    have := h.lt e he
    simp only [decide_eq_true_eq]
    omega
  rw [after, filter_append, ha, nil_append, filter_eq_self]
  exact fun e he => decide_eq_true (h.gt e he)

lemma before_cons (he : compare e.1 key = 0) : before compare key (a ++ e :: b) = a := by
  have hskip : before compare key (a ++ e :: b) = before compare key (a ++ b) := by
    rw [before, before, filter_append, filter_append, filter_cons_of_neg (by simp [he])]
  exact hskip.trans h.before_append

lemma after_cons (he : compare e.1 key = 0) : after compare key (a ++ e :: b) = b := by
  have hskip : after compare key (a ++ e :: b) = after compare key (a ++ b) := by
    rw [after, after, filter_append, filter_append, filter_cons_of_neg (by simp [he])]
  exact hskip.trans h.after_append

/-- A new entry between the parts. -/
lemma sorted_cons (hcmp : TotalPreorder compare) (ha : Sorted compare a) (hb : Sorted compare b)
    (he : compare e.1 key = 0) : Sorted compare (a ++ e :: b) := by
  have hekey : compare key e.1 = 0 := hcmp.symm he
  rw [Sorted, pairwise_append, pairwise_cons]
  refine ⟨ha, ⟨fun x hx => ?_, hb⟩, fun x hx y hy => ?_⟩
  · exact hcmp.lt_of_le_of_lt (Int.le_of_eq he) ((hcmp.flip key x.1).mpr (h.gt x hx))
  · have hxe := hcmp.lt_of_lt_of_le (h.lt x hx) (Int.le_of_eq hekey)
    obtain rfl | hy := mem_cons.mp hy
    · exact hxe
    · exact hcmp.lt_of_lt_of_le (h.lt x hx) (Int.le_of_lt ((hcmp.flip key y.1).mpr (h.gt y hy)))

end Split

/-- The neighbours of an entry are split by every key that is equal to its key. -/
lemma split_of_sorted (hcmp : TotalPreorder compare) (hsort : Sorted compare (a ++ e :: b))
    (he : compare e.1 key = 0) : Split compare key a b := by
  rw [Sorted, pairwise_append, pairwise_cons] at hsort
  obtain ⟨-, ⟨hgt, -⟩, hlt⟩ := hsort
  refine ⟨fun x hx => hcmp.lt_of_lt_of_le (hlt x hx e (.head _)) (Int.le_of_eq he), fun x hx => ?_⟩
  exact (hcmp.flip key x.1).mp (hcmp.lt_of_le_of_lt (Int.le_of_eq (hcmp.symm he)) (hgt x hx))

end

/-- The entries of a sorted map, added to an empty one in their order. -/
lemma foldl_insert_eq {compare : K → K → Int} {entries : List (K × V)} (hsort : Sorted compare entries) :
    entries.foldl (fun entries e => insert compare e.1 e.2 entries) [] = entries := by
  suffices h : ∀ done rest, entries = done ++ rest →
      rest.foldl (fun entries e => insert compare e.1 e.2 entries) done = entries from h [] entries rfl
  intro done rest
  induction rest generalizing done with
  | nil => intro hents; exact (hents.trans (append_nil _)).symm
  | cons e rest ih =>
    intro hents
    have hlt : ∀ x ∈ done, compare x.1 e.1 < 0 := by
      rw [hents, Sorted, pairwise_append] at hsort
      exact fun x hx => hsort.2.2 x hx e (.head _)
    have hinsert : insert compare e.1 e.2 done = done ++ [e] := by
      have hsplit : Split compare e.1 done ([] : List (K × V)) := ⟨hlt, by simp⟩
      simpa using hsplit.insert_append e.2
    rw [foldl_cons, hinsert]
    exact ih (done ++ [e]) (by rw [hents, append_assoc, singleton_append])

variable {compare : K → K → Int} (hcmp : TotalPreorder compare) {a b : List (K × V)}
include hcmp
variable (ha : Sorted compare a)
include ha

/-- Sorted maps with the same entries are equal. -/
lemma Sorted.ext (hb : Sorted compare b) (h : ∀ e, e ∈ a ↔ e ∈ b) : a = b := by
  have : Std.Irrefl fun x y : K × V => compare x.1 y.1 < 0 := ⟨fun x hx => by have := hcmp.refl x.1; omega⟩
  have : Std.Antisymm fun x y : K × V => compare x.1 y.1 < 0 :=
    ⟨fun x y hxy hyx => absurd ((hcmp.flip x.1 y.1).mp hxy) (by omega)⟩
  exact Pairwise.eq_of_mem_iff ha hb h

/-- A key is in a sorted map, or it splits its entries. -/
lemma Sorted.exists_split (key : K) :
    (∃ front e rest, a = front ++ e :: rest ∧ compare e.1 key = 0 ∧ Split compare key front rest) ∨
      ∃ front rest, a = front ++ rest ∧ Split compare key front rest := by
  induction a with
  | nil => exact .inr ⟨[], [], rfl, ⟨by simp, by simp⟩⟩
  | cons x a ih =>
    obtain hlt | heq | hgt : compare x.1 key < 0 ∨ compare x.1 key = 0 ∨ 0 < compare x.1 key := by omega
    · obtain ⟨front, e, rest, rfl, he, hsplit⟩ | ⟨front, rest, rfl, hsplit⟩ := ih (pairwise_cons.mp ha).2
      · exact .inl ⟨x :: front, e, rest, rfl, he, ⟨forall_mem_cons.mpr ⟨hlt, hsplit.lt⟩, hsplit.gt⟩⟩
      · exact .inr ⟨x :: front, rest, rfl, ⟨forall_mem_cons.mpr ⟨hlt, hsplit.lt⟩, hsplit.gt⟩⟩
    · exact .inl ⟨[], x, a, rfl, heq, split_of_sorted hcmp ha heq⟩
    · refine .inr ⟨[], x :: a, rfl, ⟨by simp, forall_mem_cons.mpr ⟨hgt, fun e he => ?_⟩⟩⟩
      exact hcmp.pos_of_pos_of_lt hgt ((pairwise_cons.mp ha).1 e he)

/-- An entry is determined by its key. -/
lemma Sorted.eq_of_compare {x y : K × V} (hx : x ∈ a) (hy : y ∈ a) {key : K} (hxkey : compare x.1 key = 0)
    (hykey : compare y.1 key = 0) : x = y := by
  obtain ⟨front, rest, rfl⟩ := append_of_mem hx
  have hsplit := split_of_sorted hcmp ha hxkey
  obtain hy | hy := mem_append.mp hy
  · have := hsplit.lt y hy
    omega
  obtain rfl | hy := mem_cons.mp hy
  · rfl
  · have := hsplit.gt y hy
    omega

end dart.sorted_map
