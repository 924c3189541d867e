import Mathlib.Data.Finmap
import DartVM.Lib.Int64

namespace dart.priority_queue
open int64

structure Entry (V : Type) where
  priority : Int
  value : V
deriving DecidableEq

def kMinimumSize : Nat := 16

/-- The words that a queue may have as its values. They are the keys of its hash map, which must not be null. -/
abbrev NonNull {W : Type} (null : W) := {value : W // value ≠ null}

/-- A min-priority queue with deletion support: the entries of the heap, for how many of
them there is memory, and the offset of each value. `SimpleHashMap` is a finite map of its non-null keys. -/
structure PriorityQueue (V : Type) where
  min_heap : List (Entry V)
  min_heap_size : Nat
  hashmap : Finmap fun _ : V => Nat

namespace PriorityQueue
variable {V : Type}

def empty : PriorityQueue V := ⟨[], kMinimumSize, ∅⟩

variable (self : PriorityQueue V)

def size : Nat := self.min_heap.length

def is_empty : Bool := self.size == 0

def entry_at (offset : Nat) : Checked (Entry V) :=
  match self.min_heap[offset]? with
  | some entry => .ok entry
  | none => .error .out_of_bounds

def resize (new_min_heap_size : Nat) : Checked (PriorityQueue V) := do
  check (self.size < new_min_heap_size)
  check (new_min_heap_size ≠ self.min_heap_size)
  return { self with min_heap_size := new_min_heap_size }

/-- The backing array is doubled when all of it is used. -/
def grow : Checked (PriorityQueue V) :=
  if self.size = self.min_heap_size then self.resize (self.min_heap_size <<< 1) else .ok self

/-- The backing array is halved when at most a quarter of it is used. -/
def shrink : Checked (PriorityQueue V) :=
  if self.size ≤ self.min_heap_size >>> 2 ∧ kMinimumSize ≤ self.min_heap_size >>> 1 then
    self.resize (self.min_heap_size >>> 1)
  else
    .ok self

variable [DecidableEq V]

section
variable (value : V)

def find_map_entry : Option Nat := self.hashmap.lookup value

def contains_value : Bool := (self.find_map_entry value).isSome

def set_map_entry (offset : Nat) : PriorityQueue V :=
  { self with hashmap := self.hashmap.insert value offset }

def remove_map_entry : Checked (PriorityQueue V) := do
  check (self.contains_value value)
  return { self with hashmap := self.hashmap.erase value }

/-- `Set` writes the entry after the last one or an entry of the heap. -/
def set (offset : Nat) (entry : Entry V) : Checked (PriorityQueue V) :=
  if offset < self.min_heap_size then
    let min_heap := if offset = self.size then self.min_heap ++ [entry] else self.min_heap.set offset entry
    .ok ({ self with min_heap }.set_map_entry entry.value offset)
  else
    .error .out_of_bounds

def swap (offset1 offset2 : Nat) : Checked (PriorityQueue V) := do
  let temp ← self.entry_at offset1
  let other ← self.entry_at offset2
  let min_heap := (self.min_heap.set offset1 other).set offset2 temp
  return ({ self with min_heap }.set_map_entry other.value offset1).set_map_entry temp.value offset2

/-- `Replace` with the entry at the other offset. -/
def replace (index : Nat) (entry : Entry V) : Checked (PriorityQueue V) := do
  let old ← self.entry_at index
  let queue ← self.remove_map_entry old.value
  let queue := queue.set_map_entry entry.value index
  return { queue with min_heap := queue.min_heap.set index entry }

/-- The loop of `BubbleUp`, which does not stop before the root. -/
def bubble_up (self : PriorityQueue V) : Nat → Nat → Checked (PriorityQueue V)
  | 0, _ => .error .out_of_fuel
  | fuel + 1, offset => do
    if offset = 0 then
      return self
    let parent := (offset - 1) / 2
    if (← self.entry_at parent).priority > (← self.entry_at offset).priority then
      bubble_up (← self.swap parent offset) fuel parent
    else
      bubble_up self fuel parent

/-- The smallest of an entry and its children, of which the left one exists. -/
def smallest_index (offset : Nat) : Checked Nat := do
  let left_child_index := 2 * offset + 1
  let left ← self.entry_at left_child_index
  let smallest_index := if left.priority < (← self.entry_at offset).priority then left_child_index else offset
  let right_child_index := left_child_index + 1
  if right_child_index < self.size then
    if (← self.entry_at right_child_index).priority < (← self.entry_at smallest_index).priority then
      return right_child_index
  return smallest_index

/-- The loop of `BubbleDown`. -/
def bubble_down (self : PriorityQueue V) : Nat → Nat → Checked (PriorityQueue V)
  | 0, _ => .error .out_of_fuel
  | fuel + 1, offset => do
    if ¬2 * offset + 1 < self.size then
      return self
    let smallest_index ← self.smallest_index offset
    if offset = smallest_index then
      return self
    bubble_down (← self.swap offset smallest_index) fuel smallest_index

def insert (priority : Int) (value : V) : Checked (PriorityQueue V) := do
  check (!self.contains_value value)
  let queue ← (← self.grow).set self.size ⟨priority, value⟩
  queue.bubble_up (self.size + 1) self.size

def minimum : Checked (Entry V) := do
  check (!self.is_empty)
  self.entry_at 0

def remove_at (offset : Nat) : Checked (PriorityQueue V) := do
  check (offset < self.size)
  let last ← self.entry_at (self.size - 1)
  let shorter := { self with min_heap := self.min_heap.dropLast }
  if offset = shorter.size then
    (← shorter.remove_map_entry last.value).shrink
  else
    let queue ← shorter.replace offset last
    (← queue.bubble_down queue.size offset).shrink

def remove_minimum : Checked (PriorityQueue V) := do
  check (!self.is_empty)
  self.remove_at 0

/-- Returns whether an entry was removed. -/
def remove_by_value : Checked (Bool × PriorityQueue V) :=
  match self.find_map_entry value with
  | none => .ok (false, self)
  | some offset => do
    let queue ← self.remove_at offset
    check (queue.hashmap.keys.card = queue.size)
    return (true, queue)

end

/-- Restores the heap order after the priority of an entry has changed. -/
def restore_order (offset : Nat) : Checked (PriorityQueue V) := do
  if offset = 0 then
    self.bubble_down self.size offset
  else
    let parent := (offset - 1) / 2
    let diff ← checked ((← self.entry_at offset).priority - (← self.entry_at parent).priority)
    if diff.toInt < 0 then
      self.bubble_up (offset + 1) offset
    else if diff.toInt > 0 then
      self.bubble_down self.size offset
    else
      return self

/-- Returns whether an entry was added. -/
def insert_or_change_priority (priority : Int) (value : V) : Checked (Bool × PriorityQueue V) :=
  match self.find_map_entry value with
  | none => do return (true, ← self.insert priority value)
  | some offset => do
    check (offset < self.size)
    let entry ← self.entry_at offset
    let changed := { self with min_heap := self.min_heap.set offset { entry with priority } }
    return (false, ← changed.restore_order offset)

end PriorityQueue
end dart.priority_queue
