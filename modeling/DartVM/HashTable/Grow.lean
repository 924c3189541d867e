import DartVM.HashTable.Rehash

namespace dart.hash_table
open HashTable List Entry HashTables
variable {α Key : Type} {traits : KeyTraits Key α} {table : HashTable α} {entry : Nat} {a : α}

/-- Where a lookup says that a key is absent, it can be inserted. -/
lemma HashTable.Inv.vacant (h : table.Inv traits) (hroom : table.numUsed + 1 < table.num_entries) {key : α}
    (habs : ∀ other a, table.keyAt other = some (.ref a) → traits.is_match (traits.of_object key) a = false)
    (hreach : table.Reaches (traits.hash (traits.of_object key)) entry)
    (hfree : table.keyAt entry = some .sentinel ∨ table.keyAt entry = some .null_object) :
    ∃ old, Vacant traits table entry old key ∧ old.payload.length = table.payload_size := by
  have hlt : entry < table.num_entries := by
    rcases hfree with hkey | hkey <;> exact lt_of_keyAt hkey
  obtain ⟨old, -, hent, hkey⟩ := exists_keyAt hlt
  refine ⟨old, ⟨hent, ?_, ⟨hreach, habs⟩, hroom⟩, h.payloads old (mem_of_getElem? hent)⟩
  rw [hkey] at hfree
  rw [is_occupied, is_unused, is_deleted]
  rcases hfree with hold | hold <;> rw [Option.some.inj hold] <;> rfl

/-- The state of `Copy` after the first `i` entries of the old table. -/
structure CopyInv (traits : KeyTraits Key α) (from_table fresh : HashTable α) (i : Nat) (to_table : HashTable α) : Prop where
  inv : to_table.Inv traits
  contents : to_table.contents.Perm ((from_table.entries.take i).filterMap Entry.item)
  used : to_table.numUsed ≤ (from_table.entries.take i).countP Entry.is_occupied
  num_entries : to_table.num_entries = fresh.num_entries
  layout : SameLayout to_table fresh

lemma mem_contents_of_keyAt (h : table.keyAt entry = some (.ref a)) : ∃ payload, (a, payload) ∈ table.contents := by
  obtain ⟨e, he, hkey⟩ := mem_of_keyAt h
  exact ⟨e.payload, mem_filterMap.mpr ⟨e, mem_of_getElem? he, by rw [item, hkey]⟩⟩

lemma Entry.key_of_item {e : Entry α} {payload : List (Object α)} (h : e.item = some (a, payload)) :
    e = ⟨.ref a, payload⟩ := by
  obtain ⟨key, _⟩ := e
  cases key with
  | ref b => simpa [item] using h
  | sentinel => cases h
  | null_object => cases h

variable {from_table fresh : HashTable α} {high : Rat}

section
variable (hlaw : traits.Lawful) (hfrom : from_table.Inv traits) (hlay : SameLayout fresh from_table)
  (hroom : from_table.entries.countP is_occupied + 1 < fresh.num_entries)
include hlaw hfrom hlay hroom

lemma copy_entry_spec {i : Nat} (hi : i < from_table.num_entries) {to_table : HashTable α}
    (h : CopyInv traits from_table fresh i to_table) :
    ∃ next, copy_entry traits from_table to_table i = .ok next ∧ CopyInv traits from_table fresh (i + 1) next := by
  obtain ⟨e, hent, hget, hkeyAt⟩ := exists_keyAt hi
  have htake : from_table.entries.take (i + 1) = from_table.entries.take i ++ [e] := by
    rw [take_add_one, hget]
    rfl
  have hpay : e.payload.length = from_table.payload_size := hfrom.payloads e (mem_of_getElem? hget)
  rw [copy_entry, hent, ok_bind]
  cases hkey : e.key with
  | sentinel | null_object =>
    refine ⟨to_table, rfl, h.inv, ?_, ?_, h.num_entries, h.layout⟩
    · simpa [htake, item, hkey] using h.contents
    · simpa [htake, is_occupied, is_unused, is_deleted, hkey] using h.used
  | ref key =>
    obtain ⟨present, to_entry, hfind, hpres, habs⟩ :=
      h.inv.probeable.find_key_or_deleted_or_unused_spec hlaw h.inv.reachable (traits.of_object key)
    -- an entry of the new table that matches comes from another entry of the old one
    have hnew : present = false := by
      rw [Bool.eq_false_iff]
      intro htrue
      obtain ⟨a, hat, hmatch⟩ := hpres htrue
      obtain ⟨payload, hmem⟩ := mem_contents_of_keyAt hat
      obtain ⟨other, hother, hitem⟩ := mem_filterMap.mp (h.contents.mem_iff.mp hmem)
      obtain ⟨j, hj⟩ := mem_iff_getElem?.mp hother
      rw [getElem?_take] at hj
      split at hj
      · have hkeyj : from_table.keyAt j = some (.ref a) := by
          rw [keyAt, hj, key_of_item hitem]
          rfl
        have heq := hfrom.distinct i j key a (by rw [hkeyAt, hkey]) hkeyj hmatch
        omega
      · cases hj
    subst hnew
    obtain ⟨hfresh, hreach, hfree⟩ := habs rfl
    have hcnt : (from_table.entries.take i).countP is_occupied ≤
        from_table.entries.countP is_occupied := (take_sublist i from_table.entries).countP_le
    have hused := h.used
    have hents := h.num_entries
    obtain ⟨old, hvac, hlen⟩ := h.inv.vacant (by omega) hfresh hreach hfree
    have hsize : to_table.payload_size = from_table.payload_size := h.layout.payload_size.trans hlay.payload_size
    have hocc : e.is_occupied = true := is_occupied_iff.mpr ⟨key, hkey⟩
    have hput := insert_key_payloads_eq hvac.entry_eq hvac.free hlen key (hpay.trans hsize.symm)
      fun component value hval => get_payload_eq hget hocc hval
    obtain ⟨hinv, hcont, hbound⟩ := h.inv.put hlaw hvac (hpay.trans hsize.symm)
    refine ⟨to_table.put to_entry old key e.payload, ?_, hinv, ?_, ?_, ?_, ?_⟩
    · rw [hsize] at hput
      simp only [hfind, ok_bind, Bool.not_false, check_true]
      exact hput
    · rw [htake, filterMap_append]
      have hitem : [e].filterMap item = [(key, e.payload)] := by simp [item, hkey]
      rw [hitem]
      exact hcont.trans ((h.contents.cons _).trans (perm_append_singleton _ _).symm)
    · rw [htake, countP_append]
      simp [hocc]
      omega
    · rw [put, num_entries_store, h.num_entries]
    · exact ⟨h.layout.storage, h.layout.payload_size⟩

/-- `Copy` fills an empty table with the contents of another one. -/
lemma copy_spec (hnew : fresh.Inv traits) (hocc : from_table.num_occupied < fresh.num_entries) : ∃ copied,
    copy traits from_table fresh =
    .ok copied ∧ copied.Inv traits ∧ copied.contents.Perm from_table.contents ∧ copied.numUsed ≤
    from_table.entries.countP is_occupied ∧ copied.num_entries = fresh.num_entries ∧ SameLayout copied from_table := by
  obtain ⟨cleared, hclr, hinv, hcont, hused, hents, hsame⟩ := initialize_entries_spec traits hnew.size hnew.allocated
  have hstart : CopyInv traits from_table fresh 0 cleared := ⟨hinv, by simp [hcont], by simp [hused], hents, hsame⟩
  obtain ⟨copied, hloop, hend⟩ := loops.foldlM_range_spec (copy_entry traits from_table)
    (CopyInv traits from_table fresh) from_table.num_entries
    (fun i table hi h => copy_entry_spec hlaw hfrom hlay hroom hi h) cleared hstart
  have hall : from_table.entries.take from_table.num_entries = from_table.entries := take_length
  refine ⟨copied, ?_, hend.inv, ?_, ?_, hend.num_entries, ?_⟩
  · have hchk : decide (from_table.num_occupied < cleared.num_entries) = true := by
      rw [hents]
      exact decide_eq_true hocc
    rw [copy, hclr, ok_bind, hchk, check_true, ok_bind, hloop]
  · have hperm := hend.contents
    rw [hall] at hperm
    exact hperm
  · have hcnt := hend.used
    rw [hall] at hcnt
    exact hcnt
  · exact ⟨hend.layout.storage.trans hlay.storage, hend.layout.payload_size.trans hlay.payload_size⟩

end

/-- Below the maximal load factor there is room for another key. -/
lemma room_of_load_factor (hhi : high ≤ 1) (h : table.Inv traits)
    (hload : load_factor (1 + table.num_occupied + table.num_deleted) table.num_entries < high) :
    table.numUsed + 1 < table.num_entries := by
  have hpos : (0 : Rat) < (table.num_entries : Nat) := by exact_mod_cast h.probeable.pos
  rw [load_factor, div_lt_iff₀ hpos] at hload
  have hfactor : high * (table.num_entries : Nat) ≤ (table.num_entries : Nat) := by nlinarith
  have hcnts := h.counts
  have hlt : (1 + table.num_occupied + table.num_deleted : Int) < (table.num_entries : Nat) := by
    exact_mod_cast lt_of_lt_of_le hload hfactor
  omega

/-- The assertion about the load factor of the new table: its size is an even number,
so it is at least twice the number of keys to be held. -/
lemma new_load_factor_le (hhi : 1 / 2 ≤ high) {count : Nat} (hcnt : 2 * count + 1 ≤ 2 ^ 63) :
    ((count : Int) == 0 || load_factor (1 + count) (utils.round_up_to_power_of_two (2 * count + 1)) ≤ high) = true := by
  obtain ⟨hpow, hle⟩ := utils.round_up_to_power_of_two_spec (by omega) hcnt
  by_cases h0 : count = 0
  · simp [h0]
  have hbig : 2 * (1 + count) ≤ utils.round_up_to_power_of_two (2 * count + 1) := by
    have hsize : 0 < (2 * count + 1 - 1).size := Nat.size_pos.mpr (by omega)
    obtain ⟨m, hm⟩ : ∃ m, (2 * count + 1 - 1).size = m + 1 := ⟨_, (Nat.sub_add_cancel hsize).symm⟩
    rw [hm] at hpow
    omega
  have hcast : (2 * (1 + count) : Rat) ≤ utils.round_up_to_power_of_two (2 * count + 1) := by exact_mod_cast hbig
  have hpos : (0 : Rat) < utils.round_up_to_power_of_two (2 * count + 1) := by
    linarith
  rw [Bool.or_eq_true, decide_eq_true_iff, load_factor, div_le_iff₀ hpos]
  right
  push_cast
  nlinarith

lemma HashTable.Inv.num_entries_le (h : table.Inv traits) : table.num_entries ≤ kMaxElements := by
  have halloc := h.allocated
  rw [array_length, Nat.add_mul] at halloc
  omega

/-- `EnsureLoadFactor` makes room for another key and keeps the contents of strong
storage. It can only fail because the array it needs is too large. -/
lemma ensure_load_factor_spec (hlaw : traits.Lawful) (hlo : 1 / 2 ≤ high) (hhi : high ≤ 1)
    (h : table.Inv traits) (cleared : List Nat) :
    (ensure_load_factor traits high cleared table = .error .out_of_memory ∧
      kMaxElements < array_length_for_num_occupied table.payload_size (2 * table.entries.countP is_occupied + 1)) ∨
    ∃ grown, ensure_load_factor traits high cleared table = .ok grown ∧
      grown.Inv traits ∧ grown.numUsed + 1 < grown.num_entries ∧ SameLayout grown table ∧
      (table.storage = .array → grown.contents.Perm table.contents) := by
  by_cases hkeep : load_factor (1 + table.num_occupied + table.num_deleted) table.num_entries < high ∧
    ¬table.num_occupied ≤ table.num_deleted
  · refine .inr ⟨table, ?_, h, room_of_load_factor hhi h hkeep.1, ⟨rfl, rfl⟩, fun _ => .refl _⟩
    rw [ensure_load_factor, if_pos hkeep]
    rfl
  obtain ⟨hinv, hents, hlay, hocc⟩ := h.update_weak_deleted
  have hsmall : table.entries.countP is_occupied ≤ kMaxElements := countP_le_length.trans h.num_entries_le
  have hmax : kMaxElements < 2 ^ 60 := by norm_num [kMaxElements]
  have hcap : ((table.entries.countP is_occupied : Int) * 2 + 1).toNat =
      2 * table.entries.countP is_occupied + 1 := by omega
  have hchk : (table.update_weak_deleted.num_occupied == 0 || load_factor (1 + table.update_weak_deleted.num_occupied)
      (utils.round_up_to_power_of_two (table.update_weak_deleted.num_occupied * 2 + 1).toNat) ≤ high) = true := by
    rw [hocc, hcap]
    exact new_load_factor_le hlo (by omega)
  rw [ensure_load_factor, if_neg hkeep]
  dsimp only
  rw [hchk, check_true, ok_bind, hocc, hcap]
  rcases new_spec traits table.update_weak_deleted.storage table.update_weak_deleted.payload_size
    (show 2 * table.entries.countP is_occupied + 1 < 2 ^ 63 by omega) with ⟨herror, hbig⟩ |
    ⟨fresh, hnew, hfresh, -, -, hlarger, hstor, hpay⟩
  · left
    rw [hlay.payload_size] at hbig
    exact ⟨by rw [herror, error_bind], hbig⟩
  obtain ⟨hcinv, hcoll, hcarray⟩ := hinv.collect hlaw cleared
  have hcnt := hcoll.occupied_le
  have hstale := hcoll.num_occupied
  rw [hents] at hcnt
  have hsame : SameLayout fresh (table.update_weak_deleted.collect cleared) :=
    ⟨hstor.trans hcoll.layout.storage.symm, hpay.trans hcoll.layout.payload_size.symm⟩
  obtain ⟨grown, hcopy, hgrown, hcont, hused, hsize, hgrownLayout⟩ :=
    copy_spec hlaw hcinv hsame (by omega) hfresh (by omega)
  refine .inr ⟨grown, by rw [hnew, ok_bind, hcopy], hgrown, by omega, ?_, fun harray => ?_⟩
  · exact ⟨hgrownLayout.storage.trans (hcoll.layout.storage.trans hlay.storage),
      hgrownLayout.payload_size.trans (hcoll.layout.payload_size.trans hlay.payload_size)⟩
  · rw [hcarray (hlay.storage.trans harray)] at hcont
    rwa [show table.update_weak_deleted.contents = table.contents by rw [contents, hents, contents]] at hcont

end dart.hash_table
