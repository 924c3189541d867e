import Mathlib.Data.Rat.Floor
import DartVM.Platform.Utils

namespace dart.hash_table

/-- An object as the table sees it: one of the two markers, or any other reference.
The marker of a deleted entry is the null object, which may also be a payload. -/
inductive Object (α : Type) where
  | sentinel
  | null_object
  | ref (a : α)
deriving DecidableEq, Repr

def unused_marker {α : Type} : Object α := .sentinel

def deleted_marker {α : Type} : Object α := .null_object

/-- How keys are hashed and compared. `Key` is any type that can be looked up; the
stored objects are among them. -/
structure KeyTraits (Key α : Type) where
  hash : Key → Nat
  is_match : Key → α → Bool
  of_object : α → Key

/-- Equal hashes for matching keys, and matching is an equivalence on what is stored. -/
structure KeyTraits.Lawful {Key α : Type} (traits : KeyTraits Key α) : Prop where
  hash_eq : ∀ {key : Key} {a : α}, traits.is_match key a = true → traits.hash key = traits.hash (traits.of_object a)
  refl : ∀ a : α, traits.is_match (traits.of_object a) a = true
  congr : ∀ {key : Key} {a : α}, traits.is_match key a = true → ∀ b : α,
    traits.is_match key b = traits.is_match (traits.of_object a) b

lemma KeyTraits.Lawful.symm {Key α : Type} {traits : KeyTraits Key α} (h : traits.Lawful) {a b : α}
    (hmatch : traits.is_match (traits.of_object a) b = true) : traits.is_match (traits.of_object b) a = true := by
  rw [← h.congr hmatch]
  exact h.refl a

/-- A key followed by its payload components. -/
structure Entry (α : Type) where
  key : Object α
  payload : List (Object α)
deriving DecidableEq, Repr

namespace Entry
variable {α : Type} (self : Entry α)

def is_unused : Bool := self.key matches .sentinel

def is_deleted : Bool := self.key matches .null_object

def is_occupied : Bool := !self.is_unused && !self.is_deleted

end Entry

inductive Storage where
  | array
  | weak_array
deriving DecidableEq, Repr

/-- The backing array: the header with the number of entries in each state, and the
entries. -/
structure HashTable (α : Type) where
  storage : Storage
  payload_size : Nat
  num_occupied : Int
  num_deleted : Int
  entries : List (Entry α)
deriving DecidableEq, Repr

def kFirstKeyIndex : Nat := 7

/-- `Array::kMaxElements`. -/
def kMaxElements : Nat := (2 ^ 62 - 1) / 8

/-- A backing storage size such that `num_occupied` distinct keys can be inserted. -/
def array_length_for_num_occupied (payload_size num_occupied : Nat) : Nat :=
  kFirstKeyIndex + (1 + payload_size) * utils.round_up_to_power_of_two (num_occupied + 1)

namespace HashTable
variable {α Key : Type} (self : HashTable α)

def num_entries : Nat := self.entries.length

def array_length : Nat :=
  kFirstKeyIndex + (1 + self.payload_size) * self.num_entries

section
variable (entry : Nat)

/-- The entry at an index, which must be in range. -/
def entry_at : Checked (Entry α) :=
  match self.entries[entry]? with
  | some e => .ok e
  | none => .error .assertion

def set_entry (e : Entry α) : HashTable α :=
  { self with entries := self.entries.set entry e }

/-- The loop of `FindKey`. The `int` of the probe distance is at most the number of entries, so that it can only
overflow in an array of 2^31 words. -/
def find_key_loop (traits : KeyTraits Key α) (key : Key) (self : HashTable α) : Nat → Nat → Nat → Checked (Option Nat)
  | 0, _, _ => .error .out_of_fuel
  | fuel + 1, probe, probe_distance => do
    let e ← self.entry_at probe
    let next := (probe + probe_distance) &&& (self.num_entries - 1)
    match e.key with
    | .sentinel => return none
    | .null_object => find_key_loop traits key self fuel next (probe_distance + 1)
    | .ref a =>
      if traits.is_match key a then return some probe
      else find_key_loop traits key self fuel next (probe_distance + 1)

/-- The entry that matches `key`, or `none` (in the source, -1) if none exists. -/
def find_key (traits : KeyTraits Key α) (self : HashTable α) (key : Key) : Checked (Option Nat) := do
  check (utils.is_power_of_two self.num_entries)
  find_key_loop traits key self self.num_entries (traits.hash key &&& (self.num_entries - 1)) 1

/-- The loop of `FindKeyOrDeletedOrUnused`, which remembers the first deleted entry. -/
def find_key_or_deleted_or_unused_loop (traits : KeyTraits Key α) (key : Key) (self : HashTable α) :
    Nat → Nat → Nat → Option Nat → Checked (Bool × Nat)
  | 0, _, _, _ => .error .out_of_fuel
  | fuel + 1, probe, probe_distance, deleted => do
    let e ← self.entry_at probe
    let next := (probe + probe_distance) &&& (self.num_entries - 1)
    match e.key with
    | .sentinel => return (false, deleted.getD probe)
    | .null_object =>
      find_key_or_deleted_or_unused_loop traits key self fuel next (probe_distance + 1)
        (deleted.orElse fun _ => some probe)
    | .ref a =>
      if traits.is_match key a then return (true, probe)
      else find_key_or_deleted_or_unused_loop traits key self fuel next (probe_distance + 1) deleted

/-- Either an occupied entry matching `key` and true, or an unused or deleted entry
where a matching key may be inserted and false. -/
def find_key_or_deleted_or_unused (traits : KeyTraits Key α) (self : HashTable α) (key : Key) :
    Checked (Bool × Nat) := do
  check (utils.is_power_of_two self.num_entries)
  find_key_or_deleted_or_unused_loop traits key self self.num_entries
    (traits.hash key &&& (self.num_entries - 1)) 1 none

/-- Sets the key of a previously unoccupied entry. -/
def insert_key (key : α) : Checked (HashTable α) := do
  let e ← self.entry_at entry
  check (!e.is_occupied)
  let table := self.set_entry entry { e with key := .ref key }
  if e.is_deleted then
    return { table with num_occupied := self.num_occupied + 1, num_deleted := self.num_deleted - 1 }
  else
    check e.is_unused
    return { table with num_occupied := self.num_occupied + 1 }

def get_key : Checked (Object α) := do
  let e ← self.entry_at entry
  check e.is_occupied
  return e.key

def get_payload (entry component : Nat) : Checked (Object α) := do
  let e ← self.entry_at entry
  check e.is_occupied
  match e.payload[component]? with
  | some value => return value
  | none => .error .assertion

def update_payload (entry component : Nat) (value : Object α) : Checked (HashTable α) := do
  let e ← self.entry_at entry
  check e.is_occupied
  check (component < self.payload_size)
  return self.set_entry entry { e with payload := e.payload.set component value }

/-- Deletes both the key and payload of the specified entry. -/
def delete_entry : Checked (HashTable α) := do
  check (← self.entry_at entry).is_occupied
  let self ← (List.range self.payload_size).foldlM
    (fun (self : HashTable α) i => self.update_payload entry i deleted_marker) self
  let e ← self.entry_at entry
  let self := self.set_entry entry { e with key := deleted_marker }
  return { self with num_occupied := self.num_occupied - 1, num_deleted := self.num_deleted + 1 }

/-- `Initialize`: an empty table in the same backing array. -/
def initialize_entries : Checked (HashTable α) := do
  check (self.array_length ≥ array_length_for_num_occupied self.payload_size 0)
  return { self with
    num_occupied := 0
    num_deleted := 0
    entries := self.entries.map fun _ => ⟨unused_marker, List.replicate self.payload_size unused_marker⟩ }

/-- The collector overwrites a key without touching the header. -/
def clear_key : HashTable α :=
  match self.entries[entry]? with
  | some e => if e.is_occupied then self.set_entry entry { e with key := deleted_marker } else self
  | none => self

end

/-- A weak array loses keys that are not referenced from elsewhere; the other kind of
storage keeps its keys alive. -/
def collect (cleared : List Nat) : HashTable α :=
  match self.storage with
  | .array => self
  | .weak_array => cleared.foldl clear_key self

/-- As entries are deleted by GC, the numbers in the header become stale. -/
def update_weak_deleted : HashTable α :=
  match self.storage with
  | .array => self
  | .weak_array =>
    { self with
      num_occupied := self.entries.countP Entry.is_occupied
      num_deleted := self.entries.countP Entry.is_deleted }

end HashTable

namespace HashTables
variable {α Key : Type}

/-- Allocates and initializes a table. A fresh array is filled with null. -/
def new (α : Type) (storage : Storage) (payload_size initial_capacity : Nat) : Checked (HashTable α) := do
  let length := array_length_for_num_occupied payload_size initial_capacity
  if length > kMaxElements then
    .error .out_of_memory
  else
    let num_entries := (length - kFirstKeyIndex) / (1 + payload_size)
    let fresh : Entry α := ⟨.null_object, List.replicate payload_size .null_object⟩
    HashTable.initialize_entries ⟨storage, payload_size, 0, 0, List.replicate num_entries fresh⟩

variable (traits : KeyTraits Key α)

/-- What `Copy` does with each entry of the old table. -/
def copy_entry (from_table to_table : HashTable α) (from_entry : Nat) : Checked (HashTable α) := do
  let e ← from_table.entry_at from_entry
  match e.key with
  | .ref key =>
    let (present, to_entry) ← to_table.find_key_or_deleted_or_unused traits (traits.of_object key)
    check (!present)
    let to_table ← to_table.insert_key to_entry key
    (List.range from_table.payload_size).foldlM (fun (to_table : HashTable α) i => do
      let value ← from_table.get_payload from_entry i
      to_table.update_payload to_entry i value) to_table
  | _ => return to_table

/-- Clears `to_table` and inserts all elements of `from_table`, in iteration order. -/
def copy (from_table to_table : HashTable α) : Checked (HashTable α) := do
  let to_table ← to_table.initialize_entries
  check (from_table.num_occupied < to_table.num_entries)
  (List.range from_table.num_entries).foldlM (copy_entry traits from_table) to_table

/-- The double that `0.71` denotes, a quotient by `2 ^ 50`. -/
def kMaxLoadFactor : Rat := 799388933858263 / 1125899906842624

/-- A quotient by a number of entries. These are powers of two, so that the quotient is
exact in double precision. -/
def load_factor (num_used : Int) (num_entries : Nat) : Rat := num_used / num_entries

/-- Makes room for one more key. A collection may happen when the new array is
allocated. -/
def ensure_load_factor (high : Rat) (cleared : List Nat) (table : HashTable α) : Checked (HashTable α) := do
  let current := load_factor (1 + table.num_occupied + table.num_deleted) table.num_entries
  let too_many_deleted := table.num_occupied ≤ table.num_deleted
  if current < high ∧ ¬too_many_deleted then
    return table
  let table := table.update_weak_deleted
  let new_capacity := (table.num_occupied * 2 + 1).toNat
  check (table.num_occupied == 0 ||
    load_factor (1 + table.num_occupied) (utils.round_up_to_power_of_two new_capacity) ≤ high)
  let new_table ← new α table.storage table.payload_size new_capacity
  copy traits (table.collect cleared) new_table

end HashTables

variable {α Key : Type}

/-- What an operation returns to its caller. -/
inductive Result (α : Type) where
  | flag (present : Bool)
  | object (value : Object α)
  | none
deriving DecidableEq, Repr

namespace HashTable

section
variable (traits : KeyTraits Key α)

section
variable (cleared : List Nat) (self : HashTable α)

def ensure_capacity : Checked (HashTable α) :=
  HashTables.ensure_load_factor traits HashTables.kMaxLoadFactor cleared self

/-- The common middle of the inserting operations. -/
def insert_unless (present : Bool) (entry : Nat) (key : α) : Checked (HashTable α) :=
  if present then .ok self else self.insert_key entry key

def update_or_insert (key : α) (value : Object α) : Checked (HashTable α × Result α) := do
  let self ← self.ensure_capacity traits cleared
  let (present, entry) ← self.find_key_or_deleted_or_unused traits (traits.of_object key)
  let self ← self.insert_unless present entry key
  let self ← self.update_payload entry 0 value
  return (self, .flag present)

def insert_or_get_value (key : α) (value_if_absent : Object α) : Checked (HashTable α × Result α) := do
  let self ← self.ensure_capacity traits cleared
  let (present, entry) ← self.find_key_or_deleted_or_unused traits (traits.of_object key)
  if !present then
    let self ← self.insert_key entry key
    let self ← self.update_payload entry 0 value_if_absent
    return (self, .object value_if_absent)
  else
    return (self, .object (← self.get_payload entry 0))

def insert (key : α) : Checked (HashTable α × Result α) := do
  let self ← self.ensure_capacity traits cleared
  let (present, entry) ← self.find_key_or_deleted_or_unused traits (traits.of_object key)
  let self ← self.insert_unless present entry key
  return (self, .flag present)

def insert_or_get (key : α) : Checked (HashTable α × Result α) := do
  let self ← self.ensure_capacity traits cleared
  let (present, entry) ← self.find_key_or_deleted_or_unused traits (traits.of_object key)
  if !present then
    let self ← self.insert_key entry key
    return (self, .object (.ref key))
  else
    return (self, .object (← self.get_key entry))

end

def remove (self : HashTable α) (key : Key) : Checked (HashTable α × Result α) := do
  match ← self.find_key traits key with
  | none => return (self, .flag false)
  | some entry =>
    let self ← self.delete_entry entry
    return (self, .flag true)

end

def clear (self : HashTable α) : Checked (HashTable α × Result α) := do
  let self ← self.initialize_entries
  return (self, .none)

end HashTable

/-- The operations of `HashMap` and `HashSet`. Those that may allocate come with the
entries that a collection during the allocation clears; a collection may also happen
between two operations. -/
inductive Op (Key α : Type) where
  | update_or_insert (cleared : List Nat) (key : α) (value : Object α)
  | insert_or_get_value (cleared : List Nat) (key : α) (value_if_absent : Object α)
  | insert (cleared : List Nat) (key : α)
  | insert_or_get (cleared : List Nat) (key : α)
  | remove (key : Key)
  | clear
  | collect (cleared : List Nat)

/-- Maps have one payload component, sets have none. -/
def Op.Supported : Op Key α → Nat → Prop
  | .update_or_insert .., payload_size => payload_size = 1
  | .insert_or_get_value .., payload_size => payload_size = 1
  | .insert .., payload_size => payload_size = 0
  | .insert_or_get .., payload_size => payload_size = 0
  | _, _ => True

def HashTable.step (traits : KeyTraits Key α) (self : HashTable α) : Op Key α → Checked (HashTable α × Result α)
  | .update_or_insert cleared key value => self.update_or_insert traits cleared key value
  | .insert_or_get_value cleared key value => self.insert_or_get_value traits cleared key value
  | .insert cleared key => self.insert traits cleared key
  | .insert_or_get cleared key => self.insert_or_get traits cleared key
  | .remove key => self.remove traits key
  | .clear => self.clear
  | .collect cleared => .ok (self.collect cleared, .none)

/-- A sequence of operations, with what each of them returns. -/
def HashTable.run (traits : KeyTraits Key α) (self : HashTable α) :
    List (Op Key α) → Checked (HashTable α × List (Result α))
  | [] => .ok (self, [])
  | op :: ops => do
    let (self, result) ← self.step traits op
    let (self, results) ← self.run traits ops
    return (self, result :: results)

/-- A finite map as a list of items, the abstract counterpart of a table. -/
abbrev FiniteMap (α : Type) := List (α × List (Object α))

namespace FiniteMap

section
variable (traits : KeyTraits Key α) (self : FiniteMap α)

def lookup (key : Key) : Option (α × List (Object α)) :=
  self.find? fun item => traits.is_match key item.1

def replace (key : Key) (payload : List (Object α)) : FiniteMap α :=
  self.map fun item => if traits.is_match key item.1 then (item.1, payload) else item

def erase (key : Key) : FiniteMap α :=
  self.filter fun item => !traits.is_match key item.1

/-- What each operation means for a finite map. -/
def step : Op Key α → FiniteMap α × Result α
  | .update_or_insert _ key value =>
    match self.lookup traits (traits.of_object key) with
    | none => ((key, [value]) :: self, .flag false)
    | some _ => (self.replace traits (traits.of_object key) [value], .flag true)
  | .insert_or_get_value _ key value =>
    match self.lookup traits (traits.of_object key) with
    | none => ((key, [value]) :: self, .object value)
    | some item => (self, .object (item.2.headD .null_object))
  | .insert _ key =>
    match self.lookup traits (traits.of_object key) with
    | none => ((key, []) :: self, .flag false)
    | some _ => (self, .flag true)
  | .insert_or_get _ key =>
    match self.lookup traits (traits.of_object key) with
    | none => ((key, []) :: self, .object (.ref key))
    | some item => (self, .object (.ref item.1))
  | .remove key =>
    match self.lookup traits key with
    | none => (self, .flag false)
    | some _ => (self.erase traits key, .flag true)
  | .clear => ([], .none)
  | .collect _ => (self, .none)

end

def run (traits : KeyTraits Key α) (self : FiniteMap α) : List (Op Key α) → FiniteMap α × List (Result α)
  | [] => (self, [])
  | op :: ops =>
    let (self, result) := self.step traits op
    let (self, results) := run traits self ops
    (self, result :: results)

end FiniteMap
end dart.hash_table
