import DartVM.HashTable.Invariant

namespace dart.hash_table
open HashTable List HashTables Entry
variable {α Key : Type} {traits : KeyTraits Key α} {table : HashTable α}

/-- The same layout, of which only the entries and the header may differ. -/
structure SameLayout (table other : HashTable α) : Prop where
  storage : table.storage = other.storage
  payload_size : table.payload_size = other.payload_size

/-- An empty table satisfies the invariant. -/
lemma inv_of_unused (hsize : ∃ m, table.num_entries = 2 ^ m)
    (halloc : table.array_length ≤ kMaxElements) (hocc : table.num_occupied = 0) (hdel : table.num_deleted = 0)
    (hunus : ∀ e ∈ table.entries, e = ⟨unused_marker, replicate table.payload_size unused_marker⟩) : table.Inv traits ∧
    table.contents = [] ∧ table.numUsed = 0 := by
  have hused : table.numUsed = 0 := by
    rw [numUsed, countP_eq_zero]
    intro e he
    rw [hunus e he]
    exact Bool.false_ne_true
  have hkey (p : Nat) (a : α) : table.keyAt p ≠ some (.ref a) := by
    intro hp
    obtain ⟨e, he, hkey⟩ := mem_of_keyAt hp
    rw [hunus e (mem_of_getElem? he)] at hkey
    cases hkey
  have hpos : 0 < table.num_entries := by
    obtain ⟨m, hm⟩ := hsize
    rw [hm]
    exact Nat.two_pow_pos m
  have hsum := countP_used table.entries
  refine ⟨⟨hsize, halloc, ?_, by omega, fun _ => ?_, by omega, ?_, ?_⟩, ?_, hused⟩
  · intro e he
    rw [hunus e he, length_replicate]
  · rw [numUsed] at hused
    omega
  · exact fun p a hp => absurd hp (hkey p a)
  · exact fun p q a b hp => absurd hp (hkey p a)
  · rw [contents, filterMap_eq_nil_iff]
    intro e he
    rw [hunus e he]
    rfl

lemma initialize_entries_spec (traits : KeyTraits Key α) (hsize : ∃ m, table.num_entries = 2 ^ m)
    (halloc : table.array_length ≤ kMaxElements) :
    ∃ cleared, table.initialize_entries = .ok cleared ∧ cleared.Inv traits ∧ cleared.contents = [] ∧
      cleared.numUsed = 0 ∧ cleared.num_entries = table.num_entries ∧ SameLayout cleared table := by
  have hlen : array_length_for_num_occupied table.payload_size 0 ≤ table.array_length := by
    obtain ⟨m, hm⟩ := hsize
    rw [array_length, hm]
    exact Nat.add_le_add_left (Nat.mul_le_mul_left _ (Nat.two_pow_pos m)) _
  let cleared : HashTable α :=
    { table with
      num_occupied := 0
      num_deleted := 0
      entries := table.entries.map fun _ => ⟨unused_marker, replicate table.payload_size unused_marker⟩ }
  have hcnt : cleared.num_entries = table.num_entries := length_map _
  obtain ⟨hinv, hcont, hused⟩ : cleared.Inv traits ∧ cleared.contents = [] ∧ cleared.numUsed = 0 :=
    inv_of_unused (by rwa [hcnt]) (by rw [array_length, hcnt]; exact halloc) rfl rfl (by simp [cleared])
  refine ⟨cleared, ?_, hinv, hcont, hused, hcnt, rfl, rfl⟩
  have hchk : decide (table.array_length ≥ array_length_for_num_occupied table.payload_size 0) = true :=
    decide_eq_true hlen
  rw [initialize_entries, hchk, check_true, ok_bind]
  rfl

/-- `HashTables::New` returns an empty table with room for the capacity asked for,
unless the array would be too large. -/
lemma new_spec (traits : KeyTraits Key α) (storage : Storage) (payload_size : Nat) {initial_capacity : Nat}
    (hcap : initial_capacity < 2 ^ 63) : (new α storage payload_size initial_capacity = .error .out_of_memory ∧
      kMaxElements < array_length_for_num_occupied payload_size initial_capacity) ∨
    ∃ table, new α storage payload_size initial_capacity = .ok table ∧ table.Inv traits ∧
      table.contents = [] ∧ table.numUsed = 0 ∧ initial_capacity < table.num_entries ∧
      table.storage = storage ∧ table.payload_size = payload_size := by
  obtain ⟨hpow, hle⟩ := utils.round_up_to_power_of_two_spec (show 0 < initial_capacity + 1 by omega) hcap
  by_cases hbig : array_length_for_num_occupied payload_size initial_capacity > kMaxElements
  · exact .inl ⟨by rw [new, if_pos hbig], hbig⟩
  right
  let fresh : HashTable α := ⟨storage, payload_size, 0, 0,
    replicate ((array_length_for_num_occupied payload_size initial_capacity - kFirstKeyIndex) / (1 + payload_size))
      ⟨.null_object, replicate payload_size .null_object⟩⟩
  have hcnt : fresh.num_entries = utils.round_up_to_power_of_two (initial_capacity + 1) := by
    simp only [fresh, num_entries, length_replicate, array_length_for_num_occupied]
    rw [Nat.add_sub_cancel_left, Nat.mul_div_cancel_left _ (by omega)]
  have hlen : fresh.array_length = array_length_for_num_occupied payload_size initial_capacity := by
    rw [array_length, hcnt]
    rfl
  have hsize : ∃ m, fresh.num_entries = 2 ^ m := ⟨_, hcnt.trans hpow⟩
  obtain ⟨table, htable, hinv, hcont, hused, hents, hlay⟩ := initialize_entries_spec traits hsize (by omega)
  refine ⟨table, ?_, hinv, hcont, hused, by omega, hlay.storage, hlay.payload_size⟩
  rw [new, if_neg hbig]
  exact htable

namespace HashTable
variable {table : HashTable α}

lemma clear_key_eq {entry : Nat} (hchg : table.clear_key entry ≠ table) :
    ∃ e, table.entries[entry]? = some e ∧ e.is_occupied = true ∧
      table.clear_key entry = table.store entry { e with key := deleted_marker } table.num_occupied table.num_deleted := by
  rw [clear_key] at hchg ⊢
  cases hent : table.entries[entry]? with
  | none => simp [hent] at hchg
  | some e =>
    cases hocc : e.is_occupied with
    | false => simp [hent, hocc] at hchg
    | true => exact ⟨e, rfl, hocc, by simp [hocc, set_entry, store]⟩

/-- What a collection leaves as it was, and what it may take away. -/
structure Collected (table collected : HashTable α) : Prop where
  layout : SameLayout collected table
  num_entries : collected.num_entries = table.num_entries
  num_occupied : collected.num_occupied = table.num_occupied
  occupied_le : collected.entries.countP Entry.is_occupied ≤ table.entries.countP Entry.is_occupied

lemma Collected.refl (table : HashTable α) : Collected table table := ⟨⟨rfl, rfl⟩, rfl, rfl, le_refl _⟩

lemma Collected.trans {table middle last : HashTable α} (h : Collected table middle) (h' : Collected middle last) :
    Collected table last :=
  ⟨⟨h'.layout.storage.trans h.layout.storage, h'.layout.payload_size.trans h.layout.payload_size⟩,
    h'.num_entries.trans h.num_entries, h'.num_occupied.trans h.num_occupied, h'.occupied_le.trans h.occupied_le⟩

/-- Clearing a key of a weak array keeps the invariant: the entry still counts as used,
so the sum of the two numbers in the header stays right. -/
lemma Inv.clear_key (hlaw : traits.Lawful) (h : table.Inv traits) (hweak : table.storage = .weak_array) (entry : Nat)
    : (table.clear_key entry).Inv traits ∧ Collected table (table.clear_key entry) := by
  by_cases hchg : table.clear_key entry = table
  · rw [hchg]
    exact ⟨h, .refl table⟩
  obtain ⟨e, hent, hocc, heq⟩ := clear_key_eq hchg
  have hused : e.used = true := by
    rw [is_occupied, Bool.and_eq_true] at hocc
    exact hocc.1
  have hpay : ({ e with key := deleted_marker } : Entry α).payload.length = table.payload_size :=
    h.payloads e (mem_of_getElem? hent)
  rw [heq]
  refine ⟨h.store hlaw hent hpay rfl ?_ ?_ ?_ ?_, ⟨rfl, rfl⟩, num_entries_store .., rfl, ?_⟩
  · rintro a ⟨⟩
  · simp [hused]
  · simp [hweak]
  · simp [hused]
  · have hcnt := list_set.countP_set_add is_occupied hent { e with key := deleted_marker }
    simp only [HashTable.store]
    have hnew : ({ e with key := deleted_marker } : Entry α).is_occupied = false := rfl
    rw [hnew, if_neg Bool.false_ne_true] at hcnt
    omega

/-- A collection keeps the invariant. It does nothing to strong storage. -/
lemma Inv.collect (hlaw : traits.Lawful) (h : table.Inv traits) (cleared : List Nat) :
    (table.collect cleared).Inv traits ∧ Collected table (table.collect cleared) ∧
      (table.storage = .array → table.collect cleared = table) := by
  cases hstor : table.storage with
  | array =>
    have heq : table.collect cleared = table := by rw [HashTable.collect, hstor]
    rw [heq]
    exact ⟨h, .refl table, fun _ => rfl⟩
  | weak_array =>
    have heq : table.collect cleared = cleared.foldl HashTable.clear_key table := by
      rw [HashTable.collect, hstor]
    rw [heq]
    suffices hrun : ∀ (current : HashTable α), current.Inv traits → Collected table current →
        (cleared.foldl HashTable.clear_key current).Inv traits ∧
          Collected table (cleared.foldl HashTable.clear_key current) by
      obtain ⟨hinv, hcoll⟩ := hrun table h (.refl table)
      exact ⟨hinv, hcoll, by simp⟩
    induction cleared with
    | nil => exact fun current hinv hcoll => ⟨hinv, hcoll⟩
    | cons entry cleared ih =>
      intro current hinv hcoll
      obtain ⟨hinv', hcoll'⟩ := hinv.clear_key hlaw (hcoll.layout.storage.trans hstor) entry
      exact ih (by rw [HashTable.collect, hstor]) (current.clear_key entry) hinv' (hcoll.trans hcoll')

lemma Inv.update_weak_deleted (h : table.Inv traits) : table.update_weak_deleted.Inv traits ∧
    table.update_weak_deleted.entries = table.entries ∧ SameLayout table.update_weak_deleted table ∧
    table.update_weak_deleted.num_occupied = table.entries.countP is_occupied := by
  rw [HashTable.update_weak_deleted]
  cases hstor : table.storage with
  | array => exact ⟨h, rfl, ⟨hstor.symm ▸ rfl, rfl⟩, h.exact hstor⟩
  | weak_array =>
    refine ⟨⟨h.size, h.allocated, h.payloads, ?_, by simp, h.free, h.reachable, h.distinct⟩, rfl,
      ⟨hstor.symm ▸ rfl, rfl⟩, rfl⟩
    have hsum := countP_used table.entries
    simp only [numUsed]
    omega

end HashTable
end dart.hash_table
