import DartVM.HashTable.Grow

namespace dart.hash_table
open HashTable List FiniteMap Entry
variable {α Key : Type} {traits : KeyTraits Key α}

namespace FiniteMap

/-- No two keys match. -/
def Distinct (traits : KeyTraits Key α) (self : FiniteMap α) : Prop :=
  self.Pairwise fun item other => traits.is_match (traits.of_object item.1) other.1 = false

lemma Distinct.perm (hlaw : traits.Lawful) {self other : FiniteMap α} (h : Distinct traits self)
    (hperm : self.Perm other) : Distinct traits other := by
  refine (hperm.pairwise_iff ?_).mp h
  intro item item' hno
  rw [Bool.eq_false_iff] at hno ⊢
  exact fun hmatch => hno (hlaw.symm hmatch)

variable {self : FiniteMap α} {key : Key} {item : α × List (Object α)}

section
variable (hlaw : traits.Lawful) (h : Distinct traits self) (hmem : item ∈ self) (hmatch : traits.is_match key item.1 = true)
include hlaw h hmem hmatch

/-- A map splits into the item a key matches and items it does not match. -/
lemma Distinct.split :
    ∃ rest : FiniteMap α, self.Perm (item :: rest) ∧ ∀ other ∈ rest, traits.is_match key other.1 = false := by
  obtain ⟨before, after, rfl⟩ := append_of_mem hmem
  have hperm : (before ++ item :: after).Perm (item :: (before ++ after)) := perm_middle
  refine ⟨before ++ after, hperm, fun other hother => ?_⟩
  rw [hlaw.congr hmatch]
  exact rel_of_pairwise_cons (h.perm hlaw hperm) hother

lemma lookup_eq_some : self.lookup traits key = some item := by
  obtain ⟨rest, hperm, hrest⟩ := h.split hlaw hmem hmatch
  cases hfind : self.lookup traits key with
  | none => exact absurd hmatch (find?_eq_none.mp hfind item hmem)
  | some found =>
    rw [lookup] at hfind
    have hfound : traits.is_match key found.1 = true := by simpa using find?_some hfind
    rcases mem_cons.mp (hperm.mem_iff.mp (mem_of_find?_eq_some hfind)) with rfl | hother
    · rfl
    · rw [hrest found hother] at hfound
      cases hfound

end

lemma lookup_eq_none (h : ∀ item ∈ self, traits.is_match key item.1 = false) : self.lookup traits key = none := by
  rw [lookup, find?_eq_none]
  intro item hmem
  simp [h item hmem]

variable {self rest : FiniteMap α}

/-- Replacing the payload of the matching item. -/
lemma replace_perm {a : α} {payload : List (Object α)} (hperm : self.Perm ((a, payload) :: rest))
    (hmatch : traits.is_match key a = true) (hrest : ∀ other ∈ rest, traits.is_match key other.1 = false)
    (payload' : List (Object α)) : (self.replace traits key payload').Perm ((a, payload') :: rest) := by
  have hkeep : rest.replace traits key payload' = rest := by
    rw [replace]
    calc rest.map _ = rest.map id := map_congr_left fun other hother => by simp [hrest other hother]
      _ = rest := map_id rest
  have hmapped := hperm.map fun item => if traits.is_match key item.1 then (item.1, payload') else item
  rw [map_cons, if_pos hmatch] at hmapped
  exact hmapped.trans (.of_eq (congrArg _ hkeep))

lemma erase_perm (hperm : self.Perm (item :: rest)) (hmatch : traits.is_match key item.1 = true)
    (hrest : ∀ other ∈ rest, traits.is_match key other.1 = false) : (self.erase traits key).Perm rest := by
  have hfilter : rest.erase traits key = rest := by
    rw [erase, filter_eq_self]
    intro other hother
    simp [hrest other hother]
  have hmapped := hperm.filter fun item => !traits.is_match key item.1
  rw [filter_cons_of_neg (by simp [hmatch])] at hmapped
  exact hmapped.trans (.of_eq hfilter)

end FiniteMap

namespace HashTable
variable {table : HashTable α} {items : FiniteMap α}

lemma Inv.distinct_contents (h : table.Inv traits) : FiniteMap.Distinct traits table.contents := by
  rw [FiniteMap.Distinct, contents, pairwise_filterMap, pairwise_iff_getElem]
  intro i j hi hj hij item hitem other hother
  rw [Bool.eq_false_iff]
  intro hmatch
  have hkey {p : Nat} (hp : p < table.entries.length) {x : α × List (Object α)}
      (hx : (table.entries[p]).item = some x) : table.keyAt p = some (.ref x.1) := by
    rw [keyAt, List.getElem?_eq_getElem hp, Option.map_some, key_of_item hx]
  have heq := h.distinct i j item.1 other.1 (hkey hi hitem) (hkey hj hother) hmatch
  omega

/-- A table and a map with the same items. -/
structure Represents (traits : KeyTraits Key α) (table : HashTable α) (items : FiniteMap α) : Prop where
  inv : table.Inv traits
  perm : table.contents.Perm items

lemma Represents.distinct (hlaw : traits.Lawful)
    (h : Represents traits table items) : FiniteMap.Distinct traits items := h.inv.distinct_contents.perm hlaw h.perm

lemma Represents.lookup_absent (h : Represents traits table items)
    {key : Key} (habs : ∀ entry a, table.keyAt entry = some (.ref a) → traits.is_match key a = false) :
    items.lookup traits key = none := by
  apply lookup_eq_none
  intro item hitem
  obtain ⟨e, he, hitem⟩ := List.mem_filterMap.mp (h.perm.mem_iff.mpr hitem)
  obtain ⟨entry, hent⟩ := mem_iff_getElem?.mp he
  apply habs entry
  rw [keyAt, hent, Option.map_some, key_of_item hitem]

end HashTable

open List

@[simp] lemma Entry.used_ref (a : α) (payload : List (Object α)) : (⟨.ref a, payload⟩ : Entry α).used = true := rfl

namespace HashTable
variable {table : HashTable α} {key : Key} {entry : Nat}

/-- A step from `table` that keeps the invariant and, in strong storage, does to the
contents what the operation does to a finite map with the same items. -/
structure Simulates (traits : KeyTraits Key α) (table : HashTable α) (op : Op Key α) (next : HashTable α)
    (result : Result α) : Prop where
  inv : next.Inv traits
  layout : SameLayout next table
  contents : table.storage = .array → ∀ items : FiniteMap α, table.contents.Perm items →
    next.contents.Perm (items.step traits op).1 ∧ result = (items.step traits op).2

/-- The array for twice the number of live keys would be too large to allocate. -/
def Exhausted (table : HashTable α) : Prop :=
  kMaxElements < array_length_for_num_occupied table.payload_size (2 * table.entries.countP Entry.is_occupied + 1)

lemma ensure_capacity_spec (hlaw : traits.Lawful) (h : table.Inv traits) (cleared : List Nat) :
    (table.ensure_capacity traits cleared = .error .out_of_memory ∧ table.Exhausted) ∨
    ∃ grown, table.ensure_capacity traits cleared = .ok grown ∧ grown.Inv traits ∧
      grown.numUsed + 1 < grown.num_entries ∧ SameLayout grown table ∧
      (table.storage = .array → grown.contents.Perm table.contents) :=
  ensure_load_factor_spec hlaw (by norm_num [HashTables.kMaxLoadFactor])
    (by norm_num [HashTables.kMaxLoadFactor]) h cleared

/-- An entry that already holds a key matching `key`. -/
structure Present (traits : KeyTraits Key α) (table : HashTable α) (key : Key) (entry : Nat) (a : α)
    (payload : List (Object α)) : Prop where
  entry_eq : table.entries[entry]? = some ⟨.ref a, payload⟩
  is_match : traits.is_match key a = true
  payload_size : payload.length = table.payload_size

lemma Inv.present (h : table.Inv traits) {a : α} (hkey : table.keyAt entry = some (.ref a))
    (hmatch : traits.is_match key a = true) : ∃ payload, Present traits table key entry a payload := by
  obtain ⟨⟨_, payload⟩, hent, rfl⟩ := mem_of_keyAt hkey
  exact ⟨payload, hent, hmatch, h.payloads _ (mem_of_getElem? hent)⟩

/-- The lookup of the inserting operations, in a table with room for another key. -/
lemma Inv.find_or_vacant (hlaw : traits.Lawful) (h : table.Inv traits)
    (hroom : table.numUsed + 1 < table.num_entries) (key : α) :
    (∃ entry a payload, table.find_key_or_deleted_or_unused traits (traits.of_object key) = .ok (true, entry) ∧
      Present traits table (traits.of_object key) entry a payload) ∨
    ∃ entry old, table.find_key_or_deleted_or_unused traits (traits.of_object key) = .ok (false, entry) ∧
      Vacant traits table entry old key ∧ old.payload.length = table.payload_size := by
  obtain ⟨present, entry, hfind, htrue, hfalse⟩ :=
    h.probeable.find_key_or_deleted_or_unused_spec hlaw h.reachable (traits.of_object key)
  cases present with
  | true =>
    obtain ⟨a, hkey, hmatch⟩ := htrue rfl
    obtain ⟨payload, hpres⟩ := h.present hkey hmatch
    exact .inl ⟨entry, a, payload, hfind, hpres⟩
  | false =>
    obtain ⟨habs, hreach, hfree⟩ := hfalse rfl
    obtain ⟨old, hvac, hlen⟩ := h.vacant hroom habs hreach hfree
    exact .inr ⟨entry, old, hfind, hvac, hlen⟩

section
variable {items : FiniteMap α} (hlaw : traits.Lawful) (h : Represents traits table items) {payload : List (Object α)}
  {a : α} (hpres : Present traits table key entry a payload)
include hlaw h hpres

lemma Present.lookup_eq : items.lookup traits key = some (a, payload) := by
  have hmem : (⟨.ref a, payload⟩ : Entry α) ∈ table.entries := mem_of_getElem? hpres.entry_eq
  refine lookup_eq_some hlaw (h.distinct hlaw) (h.perm.mem_iff.mp ?_) hpres.is_match
  exact mem_filterMap.mpr ⟨_, hmem, rfl⟩

lemma Present.split :
    ∃ rest : FiniteMap α, items.Perm ((a, payload) :: rest) ∧ ∀ other ∈ rest, traits.is_match key other.1 = false := by
  have hmem := mem_of_find?_eq_some (hpres.lookup_eq hlaw h)
  exact (h.distinct hlaw).split hlaw hmem hpres.is_match

end

lemma Vacant.lookup_eq {items : FiniteMap α} (h : Represents traits table items) {old : Entry α} {key : α}
    (hvac : Vacant traits table entry old key) : items.lookup traits (traits.of_object key) = none :=
  h.lookup_absent hvac.place.fresh

section
variable (hlaw : traits.Lawful) (h : table.Inv traits) {payload : List (Object α)} {old : Entry α}
include hlaw h

/-- Replacing the payload of a key. -/
lemma Present.replace {a : α} {payload payload' : List (Object α)} (hpres : Present traits table key entry a payload)
    (hlen : payload'.length = table.payload_size) :
    (table.store entry ⟨.ref a, payload'⟩ table.num_occupied table.num_deleted).Inv traits ∧
      ∀ items : FiniteMap α, table.contents.Perm items →
        (table.store entry ⟨.ref a, payload'⟩ table.num_occupied table.num_deleted).contents.Perm
          (items.replace traits key payload') := by
  refine ⟨?_, fun items hperm => ?_⟩
  · refine h.store hlaw hpres.entry_eq hlen rfl ?_ ?_ ?_ ?_
    · exact fun b hb => .inl hb
    · rw [used_ref, if_pos rfl, Int.add_zero]
    · exact fun _ => rfl
    · exact fun hunus => absurd hunus (by simp)
  obtain ⟨rest, hsplit, hrest⟩ := hpres.split hlaw ⟨h, hperm⟩
  have hstore := contents_store_perm hpres.entry_eq ⟨.ref a, payload'⟩ table.num_occupied table.num_deleted
  have hswap : ((a, payload') :: table.contents).Perm ((a, payload) :: (a, payload') :: rest) :=
    ((hperm.trans hsplit).cons _).trans (.swap ..)
  exact (Perm.cons_inv (hstore.trans hswap)).trans (replace_perm hsplit hpres.is_match hrest payload').symm

lemma Present.delete {a : α} (hpres : Present traits table key entry a payload) :
    ∃ next, table.delete_entry entry = .ok next ∧ next.Inv traits ∧ SameLayout next table ∧
      ∀ items : FiniteMap α, table.contents.Perm items → next.contents.Perm (items.erase traits key) := by
  refine ⟨_, delete_entry_eq hpres.entry_eq rfl hpres.payload_size, ?_, ⟨rfl, rfl⟩, fun items hperm => ?_⟩
  · apply h.store hlaw hpres.entry_eq length_replicate rfl (fun b hb => by cases hb)
    · rw [used_ref, if_pos rfl]
      omega
    · simp [is_occupied, is_unused, is_deleted, deleted_marker]
    · exact fun hunus => absurd hunus (by simp)
  · obtain ⟨rest, hsplit, hrest⟩ := hpres.split hlaw ⟨h, hperm⟩
    have hstore := contents_store_perm hpres.entry_eq ⟨deleted_marker, replicate table.payload_size deleted_marker⟩
      (table.num_occupied - 1) (table.num_deleted + 1)
    have hkept := Perm.cons_inv (hstore.trans (hperm.trans hsplit))
    exact hkept.trans (erase_perm hsplit hpres.is_match hrest).symm

end

/-- `InsertKey` in a set, whose entries have no payload. -/
lemma Vacant.insert_key_eq_put {key : α} (hvac : Vacant traits table entry old key) (hold : old.payload.length = 0) :
    table.insert_key entry key = .ok (table.put entry old key []) := by
  rw [insert_key_eq hvac.entry_eq hvac.free, put, eq_nil_of_length_eq_zero hold]

/-- `InsertKey` and `UpdatePayload` in a map, whose entries have one payload component. -/
lemma Vacant.insert_key_update_payload {key : α}
    (hvac : Vacant traits table entry old key) (hsize : table.payload_size = 1) (hold : old.payload.length = 1)
    (value : Object α) :
    (do
      let table ← table.insert_key entry key
      table.update_payload entry 0 value) = .ok (table.put entry old key [value]) := by
  obtain ⟨_, hpay⟩ := length_eq_one_iff.mp hold
  rw [insert_key_eq hvac.entry_eq hvac.free, ok_bind, update_payload_eq (getElem?_store hvac.entry_eq ..) rfl
    (by rw [store, hsize]; exact Nat.one_pos), store_store, hpay]
  rfl

end HashTable
end dart.hash_table
