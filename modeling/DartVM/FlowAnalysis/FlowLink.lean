import DartVM.Fault
import DartVM.Lib.ParentTree

namespace dart.flow_analysis
open dart.parent_tree

section
variable {T : Type}

variable (list : List (Option T))

/-- Looks up an entry in a safe way: `null` when the index is out of range. -/
def list_get (index : Nat) : Option T :=
  if h : index < list.length then list[index] else none

/-- Stores an entry, increasing the length of the list if necessary. -/
def list_set (index : Nat) (value : Option T) : List (Option T) :=
  (list ++ List.replicate (index + 1 - list.length) none).set index value

end

/-- The object behind a reference to a `FlowLink`. -/
structure FlowLink (Link : Type) where
  key : Nat
  previous : Option Link
  previous_for_key : Option Link
  depth : Nat

def depth {Link : Type} (deref : Link → FlowLink Link) : Option Link → Nat
  | none => 0
  | some self => (deref self).depth

/-- Links as the constructor of `FlowLink` leaves them, apart from the invariant that
it requires of its caller. `Link` is the type of references, compared by identity. -/
structure Links (Link : Type) where
  deref : Link → FlowLink Link
  depth_eq : ∀ link, (deref link).depth = depth deref (deref link).previous + 1

namespace Links
variable {Link : Type} (links : Links Link)

lemma depth_eq_elim (link : Option Link) :
    depth links.deref link = link.elim 0 fun link => (links.deref link).depth := by
  cases link <;> rfl

/-- The implicit tree that the `previous` pointers form. -/
def tree : ParentTree Link where
  parent link := (links.deref link).previous
  depth link := (links.deref link).depth
  depth_eq link := by rw [links.depth_eq, depth_eq_elim]

def key (link : Link) : Nat := (links.deref link).key

/-- The walk of a plain lookup: the first link at or above `link` with the key. -/
def lookup (link : Option Link) (key : Nat) : Option Link := links.tree.lookup links.key key link

def compute_previous_for_key (link : Link) (key : Nat) : Option Link :=
  links.lookup (links.deref link).previous key

end Links

/-- A tree of links in which every `previousForKey` satisfies the assertion of the
constructor. -/
structure FlowLinks (Link : Type) extends Links Link where
  previous_for_key_eq : ∀ link, (deref link).previous_for_key = toLinks.compute_previous_for_key link (deref link).key

structure FlowLinkDiffEntry (Link : Type) where
  key : Nat
  first_left : Option Link
  first_right : Option Link
  previous_for_key : Option Link

namespace FlowLinkDiffEntry
variable {Link : Type} (self : FlowLinkDiffEntry Link)

def ancestor : Option Link := self.previous_for_key

def left : Option Link := self.first_left.or self.previous_for_key

def right : Option Link := self.first_right.or self.previous_for_key

end FlowLinkDiffEntry

/-- Which argument of a diff a step walks up from. -/
inductive Side where
  | left
  | right
deriving DecidableEq

namespace FlowLinkDiffEntry
variable {Link : Type} (side : Side) (self : FlowLinkDiffEntry Link)

def first : Option Link :=
  match side with
  | .left => self.first_left
  | .right => self.first_right

/-- The entry made for the first link with its key. -/
def create (key : Nat) (link : Link) (previous_for_key : Option Link) : FlowLinkDiffEntry Link :=
  match side with
  | .left => ⟨key, some link, none, previous_for_key⟩
  | .right => ⟨key, none, some link, previous_for_key⟩

/-- The update of an entry by a later link with its key. -/
def update (link : Link) (previous_for_key : Option Link) : FlowLinkDiffEntry Link :=
  match side with
  | .left => { self with first_left := self.first_left.or (some link), previous_for_key }
  | .right => { self with first_right := self.first_right.or (some link), previous_for_key }

end FlowLinkDiffEntry

/-- The lists that the steps of a diff change. -/
structure Scratch (Link : Type) where
  entries : List (FlowLinkDiffEntry Link)
  diff_indices : List (Option Nat)

section
variable {Link : Type} (links : FlowLinks Link)

/-- A single step through the `previous` pointers. -/
def step (side : Side) (link : Link) (scratch : Scratch Link) : Checked (Scratch Link × Option Link) :=
  let key := links.key link
  match list_get scratch.diff_indices key with
  | none =>
    .ok (⟨scratch.entries ++ [.create side key link (links.deref link).previous_for_key],
      list_set scratch.diff_indices key (some scratch.entries.length)⟩, (links.deref link).previous)
  | some index =>
    match scratch.entries[index]? with
    | none => .error .out_of_bounds
    | some entry =>
      .ok (⟨scratch.entries.set index (entry.update side link (links.deref link).previous_for_key),
        scratch.diff_indices⟩, (links.deref link).previous)

def step_left : Link → Scratch Link → Checked (Scratch Link × Option Link) := step links .left

def step_right : Link → Scratch Link → Checked (Scratch Link × Option Link) := step links .right

/-- `link!` -/
def non_null (link : Option Link) : Checked Link :=
  match link with
  | some link => .ok link
  | none => .error .assertion

/-- The loop that walks the deeper argument up to the depth of the other one. -/
def walk (step : Link → Scratch Link → Checked (Scratch Link × Option Link)) (other_depth : Nat) :
    Nat → Option Link → Scratch Link → Checked (Scratch Link × Option Link)
  | 0, link, scratch => .ok (scratch, link)
  | link_depth + 1, link, scratch =>
    if link_depth + 1 > other_depth then do
      let (scratch, link) ← step (← non_null link) scratch
      check (link_depth = depth links.deref link)
      walk step other_depth link_depth link scratch
    else
      .ok (scratch, link)

/-- The first loop of a diff, on whichever side it is. -/
def walk_to_same_depth (left right : Option Link) (scratch : Scratch Link) :
    Checked (Scratch Link × Option Link × Option Link) := do
  let left_depth := depth links.deref left
  let right_depth := depth links.deref right
  if left_depth > right_depth then
    let (scratch, left) ← walk links (step_left links) right_depth left_depth left scratch
    return (scratch, left, right)
  else
    let (scratch, right) ← walk links (step_right links) left_depth right_depth right scratch
    return (scratch, left, right)

variable [DecidableEq Link]

/-- The loop that walks both arguments until they are identical. -/
def walk_both : Nat → Option Link → Option Link → Scratch Link → Checked (Scratch Link × Option Link)
  | 0, _, _, _ => .error .out_of_fuel
  | fuel + 1, left, right, scratch =>
    if left ≠ right then do
      check (depth links.deref left = depth links.deref right)
      let (scratch, left) ← step_left links (← non_null left) scratch
      let (scratch, right) ← step_right links (← non_null right) scratch
      walk_both fuel left right scratch
    else
      .ok (scratch, left)

/-- The `finally` clause: the scratch area is cleared for the next call. -/
def clear_indices (entries : List (FlowLinkDiffEntry Link)) (diff_indices : List (Option Nat)) :
    Checked (List (Option Nat)) :=
  entries.zipIdx.foldlM (fun diff_indices (entry, i) => do
    check (diff_indices[entry.key]? = some (some i))
    if entry.key < diff_indices.length then
      .ok (diff_indices.set entry.key none)
    else
      .error .out_of_bounds) diff_indices

/-- The common ancestor, the entries, and the scratch area that is left behind. -/
def diff_core (diff_indices : List (Option Nat)) (left right : Option Link) :
    Checked (Option Link × List (FlowLinkDiffEntry Link) × List (Option Nat)) := do
  let (scratch, left, right) ← walk_to_same_depth links left right ⟨[], diff_indices⟩
  let (scratch, ancestor) ← walk_both links (depth links.deref left + 1) left right scratch
  let diff_indices ← clear_indices scratch.entries scratch.diff_indices
  return (ancestor, scratch.entries, diff_indices)

end

structure FlowLinkReader (Link : Type) where
  current : Option Link
  cache : List (Option Link)
  diff_indices : List (Option Nat)

namespace FlowLinkReader
variable {Link : Type} [DecidableEq Link]

def new : FlowLinkReader Link := ⟨none, [], []⟩

variable (links : FlowLinks Link) (self : FlowLinkReader Link)

def diff (left right : Option Link) : Checked (FlowLinkReader Link × Option Link × List (FlowLinkDiffEntry Link)) := do
  if left = right then
    return (self, left, [])
  let (ancestor, entries, diff_indices) ← diff_core links self.diff_indices left right
  return ({ self with diff_indices }, ancestor, entries)

def set_current (value : Option Link) : Checked (FlowLinkReader Link) := do
  if value = self.current then
    return self
  let (_, entries, diff_indices) ← diff_core links self.diff_indices self.current value
  let cache := entries.foldl (fun cache entry => list_set cache entry.key entry.right) self.cache
  return { current := value, cache, diff_indices }

def get (link : Option Link) (key : Nat) : Checked (FlowLinkReader Link × Option Link) := do
  match link with
  | none => return (self, none)
  | some link =>
    let self ← self.set_current links (some link)
    return (self, list_get self.cache key)

end FlowLinkReader

/-- A call on a reader. -/
inductive Call (Link : Type) where
  | get (link : Option Link) (key : Nat)
  | diff (left right : Option Link)

/-- What a call returns. -/
inductive Answer (Link : Type) where
  | link (found : Option Link)
  | difference (ancestor : Option Link) (entries : List (FlowLinkDiffEntry Link))

variable {Link : Type} [DecidableEq Link] (links : FlowLinks Link)

def perform (reader : FlowLinkReader Link) : Call Link → Checked (FlowLinkReader Link × Answer Link)
  | .get link key => do
    let (reader, found) ← reader.get links link key
    return (reader, .link found)
  | .diff left right => do
    let (reader, ancestor, entries) ← reader.diff links left right
    return (reader, .difference ancestor entries)

/-- A sequence of calls on one reader. -/
def run (reader : FlowLinkReader Link) : List (Call Link) → Checked (FlowLinkReader Link × List (Answer Link))
  | [] => .ok (reader, [])
  | call :: calls => do
    let (reader, answer) ← perform links reader call
    let (reader, answers) ← run reader calls
    return (reader, answer :: answers)

end dart.flow_analysis
