import DartVM.HashTable.Simulation

namespace dart.hash_table
open FiniteMap
variable {α Key : Type} {traits : KeyTraits Key α}

namespace HashTable
variable {table : HashTable α} {op : Op Key α} {result : Result α} {key : α}

/-- A step either returns and simulates the operation, or there is no memory for it. -/
def Progress (traits : KeyTraits Key α) (table : HashTable α) (op : Op Key α) : Prop :=
  (table.step traits op = .error .out_of_memory ∧ table.Exhausted) ∨
    ∃ next result, table.step traits op = .ok (next, result) ∧ Simulates traits table op next result

lemma Simulates.of_grown {grown next : HashTable α}
    (h : Simulates traits grown op next result) (hlay : SameLayout grown table)
    (hcont : table.storage = .array → grown.contents.Perm table.contents) : Simulates traits table op next result := by
  refine ⟨h.inv, ⟨h.layout.storage.trans hlay.storage, h.layout.payload_size.trans hlay.payload_size⟩, ?_⟩
  intro harray items hperm
  exact h.contents (hlay.storage.trans harray) items ((hcont harray).trans hperm)

/-- A step that leaves the table as it is. -/
lemma Simulates.unchanged (h : table.Inv traits)
    (hmap : ∀ items : FiniteMap α, Represents traits table items → items.step traits op = (items, result)) :
    Simulates traits table op table result := by
  refine ⟨h, ⟨rfl, rfl⟩, fun _ items hperm => ?_⟩
  rw [hmap items ⟨h, hperm⟩]
  exact ⟨hperm, rfl⟩

section
variable (hlawful : traits.Lawful) (h : table.Inv traits)
include hlawful h

/-- A step that puts a new key into the table. -/
lemma Simulates.put {entry : Nat} {old : Entry α} (hvac : Vacant traits table entry old key)
    {payload : List (Object α)} (hlen : payload.length = table.payload_size)
    (hmap : ∀ items : FiniteMap α, items.lookup traits (traits.of_object key) = none →
      items.step traits op = ((key, payload) :: items, result))
    : Simulates traits table op (table.put entry old key payload) result := by
  obtain ⟨hinv, hcont, -⟩ := h.put hlawful hvac hlen
  refine ⟨hinv, ⟨rfl, rfl⟩, fun _ items hperm => ?_⟩
  rw [hmap items (hvac.lookup_eq ⟨h, hperm⟩)]
  exact ⟨hcont.trans (hperm.cons _), rfl⟩

/-- The inserting operations grow the table and look for the key. What is left for each
of them is what it does with an entry that holds the key, and that it puts a payload into one that can. -/
lemma Inv.insert_progress {size : Nat} (hsize : table.payload_size = size) {cleared : List Nat}
    (payload : List (Object α)) (hpay : payload.length = size) (result : Result α)
    (finish : HashTable α → Bool → Nat → Checked (HashTable α × Result α)) (hstep : table.step traits op = do
      let grown ← table.ensure_capacity traits cleared
      let (present, entry) ← grown.find_key_or_deleted_or_unused traits (traits.of_object key)
      finish grown present entry)
    (hpres : ∀ grown : HashTable α, grown.Inv traits → grown.payload_size = size → ∀ entry a payload,
      Present traits grown (traits.of_object key) entry a payload →
      ∃ next result, finish grown true entry = .ok (next, result) ∧ Simulates traits grown op next result)
    (hvac : ∀ grown : HashTable α, grown.payload_size = size → ∀ entry old, Vacant traits grown entry old key →
      old.payload.length = size → finish grown false entry = .ok (grown.put entry old key payload, result))
    (hmap : ∀ items : FiniteMap α, items.lookup traits (traits.of_object key) = none →
      items.step traits op = ((key, payload) :: items, result)) : Progress traits table op := by
  rcases ensure_capacity_spec hlawful h cleared with ⟨herror, hexhausted⟩ | ⟨grown, hgrow, hinv, hroom, hlay, hcont⟩
  · exact .inl ⟨by rw [hstep, herror, error_bind], hexhausted⟩
  have hgrown := hlay.payload_size.trans hsize
  right
  rcases hinv.find_or_vacant hlawful hroom key with ⟨entry, a, payload, hfind, hent⟩ | ⟨entry, old, hfind, hent, hlen⟩
  · obtain ⟨next, result, hfinish, hsim⟩ := hpres grown hinv hgrown entry a payload hent
    refine ⟨next, result, ?_, hsim.of_grown hlay hcont⟩
    rw [hstep, hgrow, ok_bind, hfind]
    exact hfinish
  have hput := Simulates.put hlawful hinv hent (hpay.trans hgrown.symm) hmap
  refine ⟨_, result, ?_, hput.of_grown hlay hcont⟩
  rw [hstep, hgrow, ok_bind, hfind]
  exact hvac grown hgrown entry old hent (hlen.trans hgrown)

lemma Inv.update_or_insert_progress (hsize : table.payload_size = 1) (cleared : List Nat) (key : α) (value : Object α)
    : Progress traits table (.update_or_insert cleared key value) := by
  refine h.insert_progress hlawful hsize [value] rfl (.flag false) (fun grown present entry => do
    let grown ← grown.insert_unless present entry key
    let grown ← grown.update_payload entry 0 value
    return (grown, .flag present)) rfl ?_ ?_ ?_
  · intro grown hinv hone entry a payload hpres
    obtain ⟨_, rfl⟩ := List.length_eq_one_iff.mp (hpres.payload_size.trans hone)
    obtain ⟨hnext, hcont⟩ := hpres.replace hlawful hinv (show [value].length = _ from hone.symm)
    refine ⟨_, .flag true, ?_, hnext, ⟨rfl, rfl⟩, fun _ items hperm => ?_⟩
    · rw [insert_unless, if_pos rfl, ok_bind, update_payload_eq hpres.entry_eq rfl (by rw [hone]; exact Nat.one_pos)]
      rfl
    · simp only [FiniteMap.step, hpres.lookup_eq hlawful ⟨hinv, hperm⟩]
      exact ⟨hcont items hperm, trivial⟩
  · intro grown hone entry old hvac hold
    rw [insert_unless, if_neg Bool.false_ne_true, ← bind_assoc, hvac.insert_key_update_payload hone hold]
    rfl
  · intro items hlook
    simp [FiniteMap.step, hlook]

lemma Inv.insert_or_get_value_progress (hsize : table.payload_size = 1) (cleared : List Nat) (key : α)
    (value : Object α) : Progress traits table (.insert_or_get_value cleared key value) := by
  refine h.insert_progress hlawful hsize [value] rfl (.object value) (fun grown present entry =>
    if !present then do
      let grown ← grown.insert_key entry key
      let grown ← grown.update_payload entry 0 value
      return (grown, .object value)
    else do
      return (grown, .object (← grown.get_payload entry 0))) rfl ?_ ?_ ?_
  · intro grown hinv hone entry a payload hpres
    obtain ⟨stored, rfl⟩ := List.length_eq_one_iff.mp (hpres.payload_size.trans hone)
    refine ⟨grown, .object stored, ?_, .unchanged hinv fun items hitems => ?_⟩
    · have hread := get_payload_eq hpres.entry_eq rfl (show [stored][0]? = some stored from rfl)
      simp [hread]
    · simp [FiniteMap.step, hpres.lookup_eq hlawful hitems]
  · intro grown hone entry old hvac hold
    rw [← bind_assoc, hvac.insert_key_update_payload hone hold]
    rfl
  · intro items hlook
    simp [FiniteMap.step, hlook]

lemma Inv.insert_set_progress (hsize : table.payload_size = 0)
    (cleared : List Nat) (key : α) : Progress traits table (.insert cleared key) := by
  refine h.insert_progress hlawful hsize [] rfl (.flag false) (fun grown present entry => do
    let grown ← grown.insert_unless present entry key
    return (grown, .flag present)) rfl ?_ ?_ ?_
  · intro grown hinv _ entry a payload hpres
    refine ⟨grown, .flag true, rfl, .unchanged hinv fun items hitems => ?_⟩
    simp [FiniteMap.step, hpres.lookup_eq hlawful hitems]
  · intro grown _ entry old hvac hold
    rw [insert_unless, hvac.insert_key_eq_put hold]
    rfl
  · intro items hlook
    simp [FiniteMap.step, hlook]

lemma Inv.insert_or_get_progress (hsize : table.payload_size = 0)
    (cleared : List Nat) (key : α) : Progress traits table (.insert_or_get cleared key) := by
  refine h.insert_progress hlawful hsize [] rfl (.object (.ref key)) (fun grown present entry =>
    if !present then do
      let grown ← grown.insert_key entry key
      return (grown, .object (.ref key))
    else do
      return (grown, .object (← grown.get_key entry))) rfl ?_ ?_ ?_
  · intro grown hinv _ entry a payload hpres
    refine ⟨grown, .object (.ref a), ?_, .unchanged hinv fun items hitems => ?_⟩
    · simp [get_key, entry_at_of_getElem? hpres.entry_eq, Entry.is_occupied, Entry.is_unused, Entry.is_deleted]
    · simp [FiniteMap.step, hpres.lookup_eq hlawful hitems]
  · intro grown _ entry old hvac hold
    rw [hvac.insert_key_eq_put hold]
    rfl
  · intro items hlook
    simp [FiniteMap.step, hlook]

lemma Inv.remove_progress (key : Key) : Progress traits table (.remove key) := by
  obtain ⟨found, hfind, hnone, hsome⟩ := h.probeable.find_key_spec hlawful h.reachable key
  right
  cases found with
  | none =>
    refine ⟨table, .flag false, ?_, .unchanged h fun items hitems => ?_⟩
    · simp [step, remove, hfind]
    · simp [FiniteMap.step, hitems.lookup_absent (hnone rfl)]
  | some entry =>
    obtain ⟨a, hkey, hmatch⟩ := hsome entry rfl
    obtain ⟨payload, hpres⟩ := h.present hkey hmatch
    obtain ⟨next, hdelete, hinv, hlay, hcont⟩ := hpres.delete hlawful h
    refine ⟨next, .flag true, by simp [step, remove, hfind, hdelete], hinv, hlay, fun _ items hperm => ?_⟩
    simp only [FiniteMap.step, hpres.lookup_eq hlawful ⟨h, hperm⟩]
    exact ⟨hcont items hperm, trivial⟩

end

lemma Inv.clear_progress (h : table.Inv traits) : Progress traits table .clear := by
  obtain ⟨next, hclear, hinv, hempty, -, -, hlay⟩ := initialize_entries_spec traits h.size h.allocated
  refine .inr ⟨next, .none, by simp [step, clear, hclear], hinv, hlay, fun _ items _ => ?_⟩
  rw [hempty]
  exact ⟨.refl _, rfl⟩

section
variable (hlawful : traits.Lawful) (h : table.Inv traits)
include hlawful h

lemma Inv.collect_progress (cleared : List Nat) : Progress traits table (.collect cleared) := by
  obtain ⟨hinv, hcoll, hkept⟩ := h.collect hlawful cleared
  refine .inr ⟨table.collect cleared, .none, rfl, hinv, hcoll.layout, fun harray items hperm => ?_⟩
  rw [hkept harray]
  exact ⟨hperm, rfl⟩

/-- Every operation keeps the invariant and simulates the map. -/
lemma Inv.progress (hsupp : op.Supported table.payload_size) : Progress traits table op := by
  cases op with
  | update_or_insert cleared key value => exact h.update_or_insert_progress hlawful hsupp cleared key value
  | insert_or_get_value cleared key value => exact h.insert_or_get_value_progress hlawful hsupp cleared key value
  | insert cleared key => exact h.insert_set_progress hlawful hsupp cleared key
  | insert_or_get cleared key => exact h.insert_or_get_progress hlawful hsupp cleared key
  | remove key => exact h.remove_progress hlawful key
  | clear => exact h.clear_progress
  | collect cleared => exact h.collect_progress hlawful cleared

/-- What a whole run keeps, and the only way for it not to return. -/
lemma Inv.run_progress {ops : List (Op Key α)} (hsupp : ∀ op ∈ ops, op.Supported table.payload_size) :
    table.run traits ops = .error .out_of_memory ∨
      ∃ last results, table.run traits ops = .ok (last, results) ∧ last.Inv traits ∧ SameLayout last table ∧
        (table.storage = .array → ∀ items : FiniteMap α, table.contents.Perm items →
          last.contents.Perm (items.run traits ops).1 ∧ results = (items.run traits ops).2) := by
  induction ops generalizing table with
  | nil => exact .inr ⟨table, [], rfl, h, ⟨rfl, rfl⟩, fun _ items hperm => ⟨hperm, rfl⟩⟩
  | cons op ops ih =>
    rcases h.progress hlawful (hsupp op List.mem_cons_self) with ⟨herror, -⟩ | ⟨next, result, hstep, hsim⟩
    · exact .inl (by rw [run, herror, error_bind])
    have hlay := hsim.layout
    have hrest : ∀ op' ∈ ops, op'.Supported next.payload_size := by
      rw [hlay.payload_size]
      exact fun op' hop => hsupp op' (List.mem_cons_of_mem _ hop)
    rcases ih hsim.inv hrest with herror | ⟨last, results, hrun, hinv, hlast, hcont⟩
    · exact .inl (by simp [run, hstep, herror])
    refine .inr ⟨last, result :: results, by simp [run, hstep, hrun], hinv,
      ⟨hlast.storage.trans hlay.storage, hlast.payload_size.trans hlay.payload_size⟩, ?_⟩
    intro harray items hperm
    obtain ⟨hnext, hres⟩ := hsim.contents harray items hperm
    obtain ⟨hfinal, hresults⟩ := hcont (hlay.storage.trans harray) _ hnext
    exact ⟨hfinal, by rw [hres, hresults]; rfl⟩

end

lemma Represents.find_key_eq (hlawful : traits.Lawful) {items : FiniteMap α} (h : Represents traits table items)
    (key : Key) :
    match items.lookup traits key with
    | none => table.find_key traits key = .ok none
    | some (a, payload) => ∃ entry, table.find_key traits key = .ok (some entry) ∧
        table.entries[entry]? = some ⟨.ref a, payload⟩ := by
  obtain ⟨found, hfind, hnone, hsome⟩ := h.inv.probeable.find_key_spec hlawful h.inv.reachable key
  cases found with
  | none =>
    rw [h.lookup_absent (hnone rfl)]
    exact hfind
  | some entry =>
    obtain ⟨a, hkey, hmatch⟩ := hsome entry rfl
    obtain ⟨payload, hpres⟩ := h.inv.present hkey hmatch
    rw [hpres.lookup_eq hlawful h]
    exact ⟨entry, hfind, hpres.entry_eq⟩

end HashTable

/-- Every table that comes out of a sequence of operations on a new one, with
collections in between, can be probed and holds no key twice. In strong storage it
holds what the finite map holds, and every operation has returned what the map
returns. -/
theorem run_simulates_finite_map (hlawful : traits.Lawful) {storage : Storage} {payload_size initial_capacity : Nat}
    (hcapacity : initial_capacity < 2 ^ 63) {table : HashTable α}
    (hnew : HashTables.new α storage payload_size initial_capacity = .ok table) {ops : List (Op Key α)}
    (hsupported : ∀ op ∈ ops, op.Supported payload_size) :
    (∀ fault, table.run traits ops = .error fault → fault = .out_of_memory) ∧
    ∀ last results, table.run traits ops = .ok (last, results) →
      (∃ m, last.num_entries = 2 ^ m) ∧
      last.num_occupied + last.num_deleted = last.entries.countP (fun e => !e.is_unused) ∧
      (∃ e ∈ last.entries, e.is_unused = true) ∧
      (∀ key, ∃ found, last.find_key traits key = .ok found) ∧
      (∀ key, ∃ place, last.find_key_or_deleted_or_unused traits key = .ok place) ∧
      (∀ p q a b, last.keyAt p = some (.ref a) → last.keyAt q = some (.ref b) →
        traits.is_match (traits.of_object a) b = true → p = q) ∧
      (storage = .array →
        last.contents.Perm (run traits [] ops).1 ∧ results = (run traits [] ops).2 ∧
        ∀ key, match (run traits [] ops).1.lookup traits key with
          | none => last.find_key traits key = .ok none
          | some (a, payload) => ∃ entry, last.find_key traits key = .ok (some entry) ∧
              last.entries[entry]? = some ⟨.ref a, payload⟩) := by
  rcases new_spec traits storage payload_size hcapacity with ⟨herror, -⟩ |
    ⟨fresh, hfresh, hinv, hempty, -, -, hstor, hpay⟩
  · rw [hnew] at herror
    cases herror
  obtain rfl : table = fresh := by
    rw [hnew] at hfresh
    exact Except.ok.inj hfresh
  rw [← hpay] at hsupported
  rcases hinv.run_progress hlawful hsupported with herror | ⟨last, results, hrun, hlast, -, hcont⟩
  · rw [herror]
    exact ⟨fun fault hfault => (Except.error.inj hfault).symm, fun _ _ hok => by cases hok⟩
  rw [hrun]
  refine ⟨fun fault hfault => (by cases hfault), ?_⟩
  rintro last' results' ⟨⟩
  obtain ⟨entry, hent⟩ := hlast.probeable.free
  obtain ⟨e, he, hunus⟩ := HashTable.mem_of_keyAt hent
  refine ⟨hlast.size, hlast.counts, ⟨e, List.mem_of_getElem? he, by rw [Entry.is_unused, hunus]⟩, fun key => ?_,
    fun key => ?_, hlast.distinct, fun harray => ?_⟩
  · obtain ⟨found, hfind, -⟩ := hlast.probeable.find_key_spec hlawful hlast.reachable key
    exact ⟨found, hfind⟩
  · obtain ⟨present, place, hfind, -⟩ :=
      hlast.probeable.find_key_or_deleted_or_unused_spec hlawful hlast.reachable key
    exact ⟨(present, place), hfind⟩
  · obtain ⟨hperm, hresults⟩ := hcont (hstor.trans harray) [] (.of_eq hempty)
    exact ⟨hperm, hresults, HashTable.Represents.find_key_eq hlawful ⟨hlast, hperm⟩⟩

/-- Numbers that are all hashed to the same entry. -/
def collidingNumbers : KeyTraits Nat Nat where
  hash _ := 0
  is_match key a := key == a
  of_object a := a

lemma collidingNumbers_lawful : collidingNumbers.Lawful where
  hash_eq _ := rfl
  refl a := by simp [collidingNumbers]
  congr h b := by
    obtain rfl := eq_of_beq h
    rfl

/-- Two keys that collide, and the removal of the first. -/
def collidingOps : List (Op Nat Nat) :=
  [.update_or_insert [] 3 (.ref 5), .update_or_insert [] 7 (.ref 1), .remove 3]

theorem run_simulates_finite_map_collidingOps :
    ∃ table last : HashTable Nat, HashTables.new Nat .array 1 0 = .ok table ∧
      table.run collidingNumbers collidingOps = .ok (last, [.flag false, .flag false, .flag true]) ∧
      last.contents.Perm (run collidingNumbers [] collidingOps).1 := by
  have hnew : HashTables.new Nat .array 1 0 = .ok ⟨.array, 1, 0, 0, [⟨.sentinel, [.sentinel]⟩]⟩ := by
    decide +kernel
  have hrun : HashTable.run collidingNumbers ⟨.array, 1, 0, 0, [⟨.sentinel, [.sentinel]⟩]⟩ collidingOps =
      .ok (⟨.array, 1, 1, 1, [⟨.null_object, [.null_object]⟩, ⟨.ref 7, [.ref 1]⟩, ⟨.sentinel, [.sentinel]⟩,
        ⟨.sentinel, [.sentinel]⟩]⟩, [.flag false, .flag false, .flag true]) := by
    decide +kernel
  have hsupp : ∀ op ∈ collidingOps, op.Supported 1 := by simp [collidingOps, Op.Supported]
  obtain ⟨-, hspec⟩ := run_simulates_finite_map collidingNumbers_lawful (by decide) hnew hsupp
  obtain ⟨-, -, -, -, -, -, harray⟩ := hspec _ _ hrun
  exact ⟨_, _, hnew, hrun, (harray rfl).1⟩

end dart.hash_table
