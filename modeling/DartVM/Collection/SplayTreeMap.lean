import DartVM.Collection.Splaying

namespace dart.collection
open dart.sorted_map
variable {K V : Type}

/-- A function that is called during an operation on a map and reads the map. -/
inductive Callback (K V : Type) where
  | done (value : V)
  | lookup (key : K) (next : Option V → Callback K V)
  | contains_key (key : K) (next : Bool → Callback K V)
  | first_key (next : Option K → Callback K V)
  | last_key (next : Option K → Callback K V)
  | for_each (next : List (K × V) → Callback K V)

/-- The callback does not call `firstKey` or `lastKey`. -/
def Callback.Stable : Callback K V → Prop
  | done _ => True
  | lookup _ next => ∀ value, (next value).Stable
  | contains_key _ next => ∀ found, (next found).Stable
  | first_key _ => False
  | last_key _ => False
  | for_each next => ∀ entries, (next entries).Stable

/-- What an operation returns or throws. -/
inductive Answer (K V : Type) where
  | unit
  | value (value : Option V)
  | flag (flag : Bool)
  | key (key : Option K)
  | concurrent_modification_error
  | argument_error
  | state_error
  | assertion_error
deriving DecidableEq

/-- The operations of a map. A map is copied by adding its entries to an empty one. -/
inductive MapOperation (K V : Type) where
  | lookup (key : K)
  | set (key : K) (value : V)
  | put_if_absent (key : K) (if_absent : Callback K V)
  | update (key : K) (update : V → Callback K V) (if_absent : Option (Callback K V))
  | remove (key : K)
  | contains_key (key : K)
  | first_key
  | last_key
  | last_key_before (key : K)
  | first_key_after (key : K)
  | add_all (entries : List (K × V))
  | copy
  | clear

/-- No callback of the operation calls `firstKey` or `lastKey`, and the neighbours of `null` are not asked for. -/
def MapOperation.Stable (is_null : K → Bool) : MapOperation K V → Prop
  | last_key_before key | first_key_after key => is_null key = false
  | put_if_absent _ if_absent => if_absent.Stable
  | update _ replace if_absent => (∀ value, (replace value).Stable) ∧ ∀ callback ∈ if_absent, callback.Stable
  | _ => True

namespace SplayTree
variable (compare : K → K → Int) (valid_key is_null : K → Bool)

section
variable (self : SplayTree K V)

/-- The value of the root. -/
def root_value : Option V :=
  match self.root with
  | .leaf => none
  | .node _ _ value _ => some value

/-- `operator []`. -/
def get (key : K) : SplayTree K V × Option V :=
  if valid_key key then
    let (self, comp) := self.splay compare key
    (self, if comp = 0 then self.root_value else none)
  else (self, none)

/-- Replaces the value of the root. -/
def replace_value (value : V) : SplayTree K V :=
  { self with
    root := match self.root with
      | .leaf => .leaf
      | .node left key _ right => .node left key value right
    splay_count := self.splay_count + 1 }

/-- `operator []=`. -/
def set (key : K) (value : V) : SplayTree K V :=
  let (self, comp) := self.splay compare key
  if comp = 0 then self.replace_value value else self.add_new_root key value comp

def remove (key : K) : SplayTree K V × Option V :=
  if valid_key key then
    let (self, result) := self.remove_node compare key
    (self, result.map Prod.snd)
  else (self, none)

/-- Runs a callback. Its iteration does not change the tree. -/
def call (self : SplayTree K V) : Callback K V → SplayTree K V × V
  | .done value => (self, value)
  | .lookup key next => (self.get compare valid_key key).1.call (next (self.get compare valid_key key).2)
  | .contains_key key next =>
    (self.contains_key compare valid_key key).1.call (next (self.contains_key compare valid_key key).2)
  | .first_key next => self.first.1.call (next self.first.2)
  | .last_key next => self.last.1.call (next self.last.2)
  | .for_each next => self.call (next self.root.entries)

/-- Adds the value that a callback returns, with the comparison from before the call. -/
def add_value_of (key : K) (callback : Callback K V) (comp : Int) (assert : Bool) : SplayTree K V × Answer K V :=
  let (called, value) := self.call compare valid_key callback
  if self.modification_count ≠ called.modification_count then (called, .concurrent_modification_error)
  else if self.splay_count ≠ called.splay_count then
    let (called, comp) := called.splay compare key
    if assert && comp = 0 then (called, .assertion_error)
    else (called.add_new_root key value comp, .value (some value))
  else (called.add_new_root key value comp, .value (some value))

def put_if_absent (key : K) (if_absent : Callback K V) : SplayTree K V × Answer K V :=
  let (self, comp) := self.splay compare key
  if comp = 0 then (self, .value self.root_value)
  else self.add_value_of compare valid_key key if_absent comp true

def update (self : SplayTree K V) (key : K) (update : V → Callback K V) (if_absent : Option (Callback K V)) :
    SplayTree K V × Answer K V :=
  let (self, comp) := self.splay compare key
  if comp = 0 then
    match self.root_value with
    | none => (self, .assertion_error)
    | some value =>
      let (called, value) := self.call compare valid_key (update value)
      if self.modification_count ≠ called.modification_count then (called, .concurrent_modification_error)
      else
        let called := if self.splay_count ≠ called.splay_count then (called.splay compare key).1 else called
        (called.replace_value value, .value (some value))
  else
    match if_absent with
    | some if_absent => self.add_value_of compare valid_key key if_absent comp false
    | none => (self, .argument_error)

def last_key_before (key : K) : SplayTree K V × Answer K V :=
  if is_null key then (self, .argument_error)
  else
    let (self, comp) := self.splay compare key
    match self.root with
    | .leaf => (self, .key none)
    | .node left k _ _ => (self, .key (if comp < 0 then some k else left.rightmost_key))

def first_key_after (key : K) : SplayTree K V × Answer K V :=
  if is_null key then (self, .argument_error)
  else
    let (self, comp) := self.splay compare key
    match self.root with
    | .leaf => (self, .key none)
    | .node _ k _ right => (self, .key (if 0 < comp then some k else right.leftmost_key))

def add_all (entries : List (K × V)) : SplayTree K V :=
  entries.foldl (fun self e => self.set compare e.1 e.2) self

/-- An operation on a map. -/
def step : MapOperation K V → SplayTree K V × Answer K V
  | .lookup key => let (self, value) := self.get compare valid_key key; (self, .value value)
  | .set key value => (self.set compare key value, .unit)
  | .put_if_absent key if_absent => self.put_if_absent compare valid_key key if_absent
  | .update key update if_absent => self.update compare valid_key key update if_absent
  | .remove key => let (self, value) := self.remove compare valid_key key; (self, .value value)
  | .contains_key key => let (self, found) := self.contains_key compare valid_key key; (self, .flag found)
  | .first_key => let (self, key) := self.first; (self, .key key)
  | .last_key => let (self, key) := self.last; (self, .key key)
  | .last_key_before key => self.last_key_before compare is_null key
  | .first_key_after key => self.first_key_after compare is_null key
  | .add_all entries => (self.add_all compare entries, .unit)
  | .copy => ((empty : SplayTree K V).add_all compare self.root.entries, .unit)
  | .clear => (self.clear, .unit)

end

/-- A sequence of operations, with what they return. -/
def run (self : SplayTree K V) : List (MapOperation K V) → SplayTree K V × List (Answer K V)
  | [] => (self, [])
  | operation :: operations =>
    let (self, answer) := self.step compare valid_key is_null operation
    let (self, answers) := self.run operations
    (self, answer :: answers)

end SplayTree

variable (compare : K → K → Int) (valid_key : K → Bool)

/-- The value of a key in a sorted map. -/
def lookup_entry (entries : List (K × V)) (key : K) : Option V :=
  if valid_key key then (find compare key entries).map Prod.snd else none

/-- Runs a callback on a sorted map. -/
def Callback.result (entries : List (K × V)) : Callback K V → V
  | done value => value
  | lookup key next => (next (lookup_entry compare valid_key entries key)).result entries
  | contains_key key next => (next (valid_key key && (find compare key entries).isSome)).result entries
  | first_key next => (next (entries.head?.map Prod.fst)).result entries
  | last_key next => (next (entries.getLast?.map Prod.fst)).result entries
  | for_each next => (next entries).result entries

/-- An operation on a sorted map. -/
def reference_step (entries : List (K × V)) : MapOperation K V → List (K × V) × Answer K V
  | .lookup key => (entries, .value (lookup_entry compare valid_key entries key))
  | .set key value => (insert compare key value entries, .unit)
  | .put_if_absent key if_absent =>
    match find compare key entries with
    | some e => (entries, .value (some e.2))
    | none =>
      (insert compare key (if_absent.result compare valid_key entries) entries,
        .value (some (if_absent.result compare valid_key entries)))
  | .update key update if_absent =>
    match find compare key entries with
    | some e =>
      (insert compare key ((update e.2).result compare valid_key entries) entries,
        .value (some ((update e.2).result compare valid_key entries)))
    | none =>
      match if_absent with
      | some if_absent =>
        (insert compare key (if_absent.result compare valid_key entries) entries,
          .value (some (if_absent.result compare valid_key entries)))
      | none => (entries, .argument_error)
  | .remove key =>
    (if valid_key key then erase compare key entries else entries, .value (lookup_entry compare valid_key entries key))
  | .contains_key key => (entries, .flag (valid_key key && (find compare key entries).isSome))
  | .first_key => (entries, .key (entries.head?.map Prod.fst))
  | .last_key => (entries, .key (entries.getLast?.map Prod.fst))
  | .last_key_before key => (entries, .key ((before compare key entries).getLast?.map Prod.fst))
  | .first_key_after key => (entries, .key ((after compare key entries).head?.map Prod.fst))
  | .add_all new => (new.foldl (fun entries e => insert compare e.1 e.2 entries) entries, .unit)
  | .copy => (entries, .unit)
  | .clear => ([], .unit)

def reference_run (entries : List (K × V)) : List (MapOperation K V) → List (K × V) × List (Answer K V)
  | [] => (entries, [])
  | operation :: operations =>
    let (entries, answer) := reference_step compare valid_key entries operation
    let (entries, answers) := reference_run entries operations
    (entries, answer :: answers)

end dart.collection
