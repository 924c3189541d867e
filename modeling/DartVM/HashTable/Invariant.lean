import DartVM.Lib.ListSet
import DartVM.HashTable.Probe
import DartVM.Lib.Loops

namespace dart.hash_table
open triangular_probe Option List
variable {α Key : Type}

namespace Entry

/-- Occupied or deleted: probing goes on behind such an entry. -/
def used (self : Entry α) : Bool := !self.is_unused

variable {self : Entry α}

lemma used_eq_false_iff : self.used = false ↔ self.key = .sentinel := by
  rw [used, is_unused]
  cases self.key <;> simp

lemma is_occupied_iff : self.is_occupied = true ↔ ∃ a, self.key = .ref a := by
  rw [is_occupied, is_unused, is_deleted]
  cases self.key <;> simp

/-- The key and the payload of an occupied entry. -/
def item (self : Entry α) : Option (α × List (Object α)) :=
  match self.key with
  | .ref a => some (a, self.payload)
  | _ => none

lemma used_of_free (hfree : self.is_occupied = false) : self.used = self.is_deleted := by
  obtain ⟨key, payload⟩ := self
  cases key with
  | ref a => cases hfree
  | sentinel => rfl
  | null_object => rfl

lemma item_of_free (hfree : self.is_occupied = false) : self.item = none := by
  obtain ⟨key, payload⟩ := self
  cases key with
  | ref a => cases hfree
  | sentinel => rfl
  | null_object => rfl

lemma countP_used (entries : List (Entry α)) :
    entries.countP used = entries.countP is_occupied + entries.countP is_deleted := by
  induction entries with
  | nil => rfl
  | cons e entries ih =>
    rw [countP_cons, countP_cons, countP_cons, ih]
    have hcase : (if e.used then 1 else 0) = (if e.is_occupied then 1 else 0) + (if e.is_deleted then 1 else 0) := by
      obtain ⟨key, payload⟩ := e
      cases key <;> rfl
    omega

end Entry

namespace HashTable

def numUsed (self : HashTable α) : Nat := self.entries.countP Entry.used

/-- The live keys with their payloads, in the order of the entries. -/
def contents (self : HashTable α) : List (α × List (Object α)) := self.entries.filterMap Entry.item

/-- What holds of a table between any two operations. -/
structure Inv (traits : KeyTraits Key α) (table : HashTable α) : Prop where
  size : ∃ m, table.num_entries = 2 ^ m
  allocated : table.array_length ≤ kMaxElements
  payloads : ∀ e ∈ table.entries, e.payload.length = table.payload_size
  counts : table.num_occupied + table.num_deleted = table.numUsed
  exact : table.storage = .array → table.num_occupied = table.entries.countP Entry.is_occupied
  free : table.numUsed < table.num_entries
  reachable : KeysReachable traits table
  distinct : ∀ p q a b, table.keyAt p = some (.ref a) → table.keyAt q = some (.ref b) →
    traits.is_match (traits.of_object a) b = true → p = q

variable {entry : Nat} {self : HashTable α} {traits : KeyTraits Key α}

lemma mem_of_keyAt {key : Object α} (h : self.keyAt entry = some key) :
    ∃ e, self.entries[entry]? = some e ∧ e.key = key := by
  obtain ⟨e, he, hkey⟩ := map_eq_some_iff.mp h
  exact ⟨e, he, hkey⟩

lemma Inv.probeable (h : self.Inv traits) : self.Probeable where
  size := h.size
  free := by
    have hne : ¬∀ e ∈ self.entries, e.used = true := by
      rw [← countP_eq_length]
      exact Nat.ne_of_lt h.free
    push Not at hne
    obtain ⟨e, hmem, hunus⟩ := hne
    obtain ⟨entry, hent⟩ := mem_iff_getElem?.mp hmem
    refine ⟨entry, ?_⟩
    rw [keyAt, hent, map_some, Entry.used_eq_false_iff.mp (Bool.eq_false_iff.mpr hunus)]

/-- The table after a store into one entry and into the two numbers of the header. -/
def store (self : HashTable α) (entry : Nat) (e : Entry α) (num_occupied num_deleted : Int) : HashTable α :=
  { self with num_occupied, num_deleted, entries := self.entries.set entry e }

@[simp] lemma num_entries_store (self : HashTable α) (entry : Nat) (e : Entry α) (num_occupied num_deleted : Int) :
    (self.store entry e num_occupied num_deleted).num_entries = self.num_entries := by
  simp [store, num_entries]

lemma keyAt_store (h : entry < self.num_entries) (e : Entry α)
    (num_occupied num_deleted : Int) (other : Nat) : (self.store entry e num_occupied num_deleted).keyAt other =
      if entry = other then some e.key else self.keyAt other := by
  simp only [keyAt, store, getElem?_set]
  split
  · rw [if_pos (show entry < self.entries.length from h), map_some]
  · rfl

/-- Paths stay passable when no entry becomes unused. -/
lemma Reaches.mono {self other : HashTable α} (hsize : other.num_entries = self.num_entries)
    (hused : ∀ p, other.keyAt p = some .sentinel → self.keyAt p = some .sentinel) {hash entry : Nat}
    (h : self.Reaches hash entry) : other.Reaches hash entry := by
  obtain ⟨j, hj, hpath⟩ := h
  refine ⟨j, by rw [hsize, hj], fun i hi hunus => hpath i hi ?_⟩
  rw [hsize] at hunus
  exact hused _ hunus

/-- A key may be put where probing for it comes by, if nothing else matches it. -/
structure Place (traits : KeyTraits Key α) (table : HashTable α) (entry : Nat) (a : α) : Prop where
  reaches : table.Reaches (traits.hash (traits.of_object a)) entry
  fresh : ∀ other b, table.keyAt other = some (.ref b) → traits.is_match (traits.of_object a) b = false

/-- Storing into one entry keeps the invariant, as long as the entry does not become
unused, a new key is put in a place for it, and the numbers in the header follow. -/
lemma Inv.store (hlaw : traits.Lawful)
    (h : self.Inv traits) {old new : Entry α} (hold : self.entries[entry]? = some old)
    (hpay : new.payload.length = self.payload_size) (hused : new.used = true)
    (hkey : ∀ a, new.key = .ref a → old.key = .ref a ∨ Place traits self entry a) {num_occupied num_deleted : Int}
    (hcnts : num_occupied + num_deleted = self.num_occupied + self.num_deleted + if old.used then 0 else 1)
    (hex : self.storage = .array → num_occupied + (if old.is_occupied then 1 else 0) =
      self.num_occupied + if new.is_occupied then 1 else 0)
    (hroom : old.used = false → self.numUsed + 1 < self.num_entries) :
    Inv traits (self.store entry new num_occupied num_deleted) := by
  have hlt : entry < self.num_entries := (List.getElem?_eq_some_iff.mp hold).1
  have hkeyAt := keyAt_store hlt new num_occupied num_deleted
  have hcountUsed := list_set.countP_set_add Entry.used hold new
  have hcountOccupied := list_set.countP_set_add Entry.is_occupied hold new
  rw [hused, if_pos rfl] at hcountUsed
  have hmono {hash p : Nat} (hreach : self.Reaches hash p) :
      (self.store entry new num_occupied num_deleted).Reaches hash p := by
    refine hreach.mono (num_entries_store ..) fun q hq => ?_
    rw [hkeyAt] at hq
    split at hq
    · rw [Entry.used_eq_false_iff.mpr (some.inj hq)] at hused
      cases hused
    · exact hq
  -- a key of the new table was there before or has just been put in its place
  have horigin {p : Nat} {a : α} (hp : (self.store entry new num_occupied num_deleted).keyAt p = some (.ref a)) :
      self.keyAt p = some (.ref a) ∨ entry = p ∧ Place traits self entry a := by
    rw [hkeyAt] at hp
    split at hp
    · rename_i heq
      subst heq
      rcases hkey a (some.inj hp) with hsame | hplace
      · exact .inl (by rw [keyAt, hold, map_some, hsame])
      · exact .inr ⟨rfl, hplace⟩
    · exact .inl hp
  refine ⟨by simpa using h.size, by rw [array_length, num_entries_store]; exact h.allocated, ?_, ?_, ?_, ?_, ?_, ?_⟩
  · intro e he
    rcases mem_or_eq_of_mem_set he with hmem | rfl
    · exact h.payloads e hmem
    · exact hpay
  · have hsum := h.counts
    simp only [numUsed, HashTable.store] at hsum ⊢
    split at hcnts <;> simp_all
  · intro hstor
    have hocc := h.exact hstor
    have hadjusted := hex hstor
    simp only [HashTable.store]
    cases hold : old.is_occupied <;> cases hnew : new.is_occupied <;>
      simp only [hold, hnew, Bool.false_eq_true, if_true, if_false] at hadjusted hcountOccupied <;> omega
  · have hfree := h.free
    rw [num_entries_store]
    simp only [numUsed, HashTable.store] at hfree hroom ⊢
    split at hcountUsed <;> simp_all
  · intro p a hp
    rcases horigin hp with hwas | ⟨rfl, hplace⟩
    · exact hmono (h.reachable p a hwas)
    · exact hmono hplace.reaches
  · intro p q a b hp hq hmatch
    rcases horigin hp with hpold | ⟨rfl, hpnew⟩ <;> rcases horigin hq with hqold | ⟨hent, hqnew⟩
    · exact h.distinct p q a b hpold hqold hmatch
    · exact absurd (hlaw.symm hmatch) (by simp [hqnew.fresh p a hpold])
    · exact absurd hmatch (by simp [hpnew.fresh q b hqold])
    · exact hent

end HashTable

open List Entry

namespace HashTable
variable {self : HashTable α} {entry : Nat} {e : Entry α} {read : Nat → Checked (Object α)}
  {values : List (Object α)}

@[simp] lemma store_store (self : HashTable α) (entry : Nat) (e e' : Entry α) (occupied deleted occupied' deleted' : Int) :
    (self.store entry e occupied deleted).store entry e' occupied' deleted' =
      self.store entry e' occupied' deleted' := by
  simp [store]

section
variable (h : self.entries[entry]? = some e)
include h

lemma getElem?_store (e' : Entry α) (occupied deleted : Int) :
    (self.store entry e' occupied deleted).entries[entry]? = some e' := by
  have hlt : entry < self.entries.length := (List.getElem?_eq_some_iff.mp h).1
  simp [store, hlt]

lemma store_self : self.store entry e self.num_occupied self.num_deleted = self := by
  obtain ⟨hlt, rfl⟩ := List.getElem?_eq_some_iff.mp h
  simp [store]

lemma contents_store_perm (e' : Entry α) (occupied deleted : Int) :
    (e.item.toList ++ (self.store entry e' occupied deleted).contents).Perm (e'.item.toList ++ self.contents) :=
  list_set.filterMap_set_perm item h e'

lemma insert_key_eq (hfree : e.is_occupied = false) (key : α) :
    self.insert_key entry key = .ok (self.store entry { e with key := .ref key } (self.num_occupied + 1)
      (self.num_deleted - if e.is_deleted then 1 else 0)) := by
  rw [insert_key, entry_at_of_getElem? h, ok_bind, hfree]
  cases hdel : e.is_deleted with
  | true => simp [store, set_entry]
  | false =>
    have hunus : e.is_unused = true := by simpa [is_occupied, hdel] using hfree
    simp [store, set_entry, hunus]

variable (hocc : e.is_occupied = true) {component : Nat}
include hocc

lemma update_payload_eq (hcomponent : component < self.payload_size) (value : Object α) :
    self.update_payload entry component value = .ok (self.store entry
      { e with payload := e.payload.set component value } self.num_occupied self.num_deleted) := by
  simp [update_payload, entry_at_of_getElem? h, hocc, hcomponent, store, set_entry]

lemma get_payload_eq {value : Object α}
    (hval : e.payload[component]? = some value) : self.get_payload entry component = .ok value := by
  simp [get_payload, entry_at_of_getElem? h, hocc, hval]

variable (hlen : e.payload.length = self.payload_size)
include hlen

/-- Storing every component replaces the payload. -/
lemma update_payloads_eq
    (hvals : values.length = self.payload_size)
    (hread : ∀ i value, values[i]? = some value → read i = .ok value) :
    (range self.payload_size).foldlM (fun (self : HashTable α) i => do
        let value ← read i
        self.update_payload entry i value) self =
      .ok (self.store entry { e with payload := values } self.num_occupied self.num_deleted) := by
  have hstep (i : Nat) (table : HashTable α) (hi : i < self.payload_size)
      (htable : table = self.store entry { e with payload := values.take i ++ e.payload.drop i }
        self.num_occupied self.num_deleted) :
      ∃ next, (do
          let value ← read i
          table.update_payload entry i value) = .ok next ∧
        next = self.store entry { e with payload := values.take (i + 1) ++ e.payload.drop (i + 1) }
          self.num_occupied self.num_deleted := by
    subst htable
    have hval : values[i]? = some (values.get ⟨i, by omega⟩) := getElem?_eq_getElem (by omega)
    have hent := getElem?_store h { e with payload := values.take i ++ e.payload.drop i }
      self.num_occupied self.num_deleted
    refine ⟨_, ?_, rfl⟩
    rw [hread i _ hval, ok_bind, update_payload_eq hent hocc hi, store_store]
    have hset : (values.take i ++ e.payload.drop i).set i (values.get ⟨i, by omega⟩) =
        values.take (i + 1) ++ e.payload.drop (i + 1) := by
      have htake : (values.take i).length = i := by
        rw [length_take]
        omega
      rw [set_append_right _ _ (by omega), htake, Nat.sub_self, drop_eq_getElem_cons (by omega), set_cons_zero,
        take_add_one, hval, Option.toList_some, append_assoc, singleton_append]
    rw [hset]
    rfl
  obtain ⟨result, hres, hinv⟩ := loops.foldlM_range_spec _ _ self.payload_size hstep self
    (by simpa using (store_self h).symm)
  rw [hres, hinv, ← hvals, take_length, drop_eq_nil_of_le (by omega), append_nil]

lemma delete_entry_eq : self.delete_entry entry = .ok (self.store entry
      ⟨deleted_marker, replicate self.payload_size deleted_marker⟩ (self.num_occupied - 1) (self.num_deleted + 1)) := by
  have hread (i : Nat) (value : Object α)
      (hval : (replicate self.payload_size deleted_marker)[i]? = some value) :
      (fun _ : Nat => (Except.ok deleted_marker : Checked (Object α))) i = .ok value := by
    rw [getElem?_replicate] at hval
    split at hval
    · rw [Option.some.inj hval]
    · cases hval
  have hclear := update_payloads_eq h hocc hlen length_replicate hread
  simp only [ok_bind] at hclear
  have hent := getElem?_store h { e with payload := replicate self.payload_size deleted_marker }
    self.num_occupied self.num_deleted
  rw [delete_entry, entry_at_of_getElem? h, ok_bind, hocc, check_true, ok_bind, hclear, ok_bind,
    entry_at_of_getElem? hent, ok_bind]
  simp [store, set_entry]

end

/-- A table together with an entry where `key` can be inserted. -/
structure Vacant (traits : KeyTraits Key α) (table : HashTable α) (entry : Nat) (old : Entry α) (key : α) : Prop where
  entry_eq : table.entries[entry]? = some old
  free : old.is_occupied = false
  place : Place traits table entry key
  room : table.numUsed + 1 < table.num_entries

/-- The table with `key` and its payload in a vacant entry. -/
def put (self : HashTable α) (entry : Nat) (old : Entry α) (key : α) (payload : List (Object α)) : HashTable α :=
  self.store entry ⟨.ref key, payload⟩ (self.num_occupied + 1) (self.num_deleted - if old.is_deleted then 1 else 0)

lemma Inv.put {traits : KeyTraits Key α} (hlaw : traits.Lawful) (h : self.Inv traits) {key : α}
    (hvac : Vacant traits self entry e key) {payload : List (Object α)}
    (hpay : payload.length = self.payload_size) : (self.put entry e key payload).Inv traits ∧
      (self.put entry e key payload).contents.Perm ((key, payload) :: self.contents) ∧
      (self.put entry e key payload).numUsed ≤ self.numUsed + 1 := by
  obtain ⟨hent, hfree, hplace, hroom⟩ := hvac
  have hnew : (⟨.ref key, payload⟩ : Entry α).is_occupied = true := rfl
  refine ⟨h.store hlaw hent hpay rfl ?_ ?_ ?_ fun _ => hroom, ?_, ?_⟩
  · rintro a ⟨⟩
    exact .inr hplace
  · rw [used_of_free hfree]
    split <;> omega
  · intro _
    rw [hfree, hnew]
    simp
  · have hperm := contents_store_perm hent ⟨.ref key, payload⟩ (self.num_occupied + 1)
      (self.num_deleted - if e.is_deleted then 1 else 0)
    rw [item_of_free hfree] at hperm
    exact hperm
  · have hcnt := list_set.countP_set_add used hent ⟨.ref key, payload⟩
    simp only [numUsed, HashTable.put, HashTable.store]
    split at hcnt <;> split at hcnt <;> omega

/-- `InsertKey` followed by a store of every payload component. -/
lemma insert_key_payloads_eq (h : self.entries[entry]? = some e) (hfree : e.is_occupied = false)
    (hlen : e.payload.length = self.payload_size) (key : α)
    (hvals : values.length = self.payload_size)
    (hread : ∀ i value, values[i]? = some value → read i = .ok value) :
    (do
      let table ← self.insert_key entry key
      (range self.payload_size).foldlM (fun (table : HashTable α) i => do
        let value ← read i
        table.update_payload entry i value) table) = .ok (self.put entry e key values) := by
  rw [insert_key_eq h hfree, ok_bind]
  have hent := getElem?_store h { e with key := .ref key } (self.num_occupied + 1)
    (self.num_deleted - if e.is_deleted then 1 else 0)
  have hloop := update_payloads_eq hent rfl hlen hvals hread
  rw [store_store] at hloop
  exact hloop

end HashTable
end dart.hash_table
