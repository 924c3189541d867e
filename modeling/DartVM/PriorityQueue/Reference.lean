import DartVM.PriorityQueue.Operations

namespace dart.priority_queue
open binary_heap int64 List
variable {V : Type}

inductive Op (V : Type) where
  | insert (priority : Int) (value : V)
  | remove_minimum
  | remove_by_value (value : V)
  | insert_or_change_priority (priority : Int) (value : V)
deriving DecidableEq

def Op.priority : Op V → Option Int
  | .insert priority _ | .insert_or_change_priority priority _ => some priority
  | .remove_minimum | .remove_by_value _ => none

def Op.removed : Op V → Option V
  | .remove_by_value value => some value
  | _ => none

/-- What a priority queue is for: the priority of each of its values. -/
def PriorityMap (V : Type) : Type := V → Option Int

namespace PriorityMap

/-- A value of least priority. -/
def Least (map : PriorityMap V) (value : V) (priority : Int) : Prop :=
  map value = some priority ∧ ∀ other p, map other = some p → priority ≤ p

variable [DecidableEq V] {p : Int}

def update (map : PriorityMap V) (value : V) (priority : Option Int) : PriorityMap V :=
  Function.update map value priority

lemma update_apply (map : PriorityMap V) (key : V) (priority : Option Int) (value : V) :
    map.update key priority value = if value = key then priority else map value := Function.update_apply ..

/-- `RemoveMinimum` removes any of the values of least priority. -/
inductive Step (map : PriorityMap V) : Op V → PriorityMap V → Prop where
  | insert {priority value} : map value = none → Step map (.insert priority value) (map.update value (some priority))
  | remove_minimum {priority value} : map.Least value priority → Step map .remove_minimum (map.update value none)
  | remove_by_value {value} : Step map (.remove_by_value value) (map.update value none)
  | insert_or_change_priority {priority value} :
      Step map (.insert_or_change_priority priority value) (map.update value (some priority))

inductive Run : List (Op V) → PriorityMap V → Prop where
  | empty : Run [] fun _ => none
  | step {ops op map map'} : Run ops map → Step map op map' → Run (ops ++ [op]) map'

lemma Step.priority_mem {map map' : PriorityMap V} {op : Op V} (h : map.Step op map') {value : V}
    (hp : map' value = some p) : op.priority = some p ∨ map value = some p := by
  have hupdate {key : V} {priority : Option Int} (hkey : map.update key priority value = some p) :
      priority = some p ∨ map value = some p := by
    rw [update_apply] at hkey
    split at hkey
    · exact .inl hkey
    · exact .inr hkey
  cases h with
  | insert _ | remove_minimum _ | remove_by_value | insert_or_change_priority => exact hupdate hp

/-- Every priority has come with an operation. -/
lemma Run.priority_mem {ops : List (Op V)} {map : PriorityMap V} (h : Run ops map) {value : V}
    (hp : map value = some p) : p ∈ ops.filterMap Op.priority := by
  induction h with
  | empty => cases hp
  | step _ hstep ih =>
    rw [filterMap_append, mem_append, mem_filterMap, mem_filterMap]
    rcases hstep.priority_mem hp with hop | hold
    · exact .inr ⟨_, mem_singleton_self _, hop⟩
    · exact .inl (mem_filterMap.mp (ih hold))

end PriorityMap

namespace PriorityQueue
variable [DecidableEq V] {self queue : PriorityQueue V} {map : PriorityMap V}

section
variable (self : PriorityQueue V)

def step : Op V → Checked (PriorityQueue V)
  | .insert priority value => self.insert priority value
  | .remove_minimum => self.remove_minimum
  | .remove_by_value value => do return (← self.remove_by_value value).2
  | .insert_or_change_priority priority value => do return (← self.insert_or_change_priority priority value).2

def run (ops : List (Op V)) : Checked (PriorityQueue V) := ops.foldlM step empty

lemma run_append (ops : List (Op V)) (op : Op V) : run (ops ++ [op]) = (run ops >>= fun queue => queue.step op) := by
  rw [run, foldlM_append]
  simp only [foldlM_cons, foldlM_nil, bind_pure]
  rfl

/-- What a caller owes: `Insert` of a fresh value, `RemoveMinimum` of a queue with an entry. -/
def permits : Op V → Bool
  | .insert _ value => !self.contains_value value
  | .remove_minimum => !self.is_empty
  | .remove_by_value _ | .insert_or_change_priority _ _ => true

/-- The entries of the heap are those of the map. -/
def Represents (map : PriorityMap V) : Prop :=
  ∀ value priority, map value = some priority ↔ ⟨priority, value⟩ ∈ self.min_heap

end

section
variable (h : self.Represents map) {entry : Entry V} {priority : Int}
include h

lemma Represents.eq_none_iff (hsync : self.Synced) {value : V} :
    map value = none ↔ self.contains_value value = false := by
  rw [← Bool.not_eq_true, hsync.contains_value_iff, Option.eq_none_iff_forall_not_mem]
  constructor
  · rintro hnone ⟨entry, hmem, rfl⟩
    exact hnone entry.priority ((h entry.value entry.priority).mpr hmem)
  · intro habs priority hprio
    exact habs ⟨_, (h value priority).mp hprio, rfl⟩

lemma Represents.insert {value : V} (hnew : map value = none)
    (hperm : queue.min_heap.Perm (⟨priority, value⟩ :: self.min_heap)) :
    queue.Represents (map.update value (some priority)) := by
  intro other p
  rw [PriorityMap.update_apply, hperm.mem_iff, mem_cons, ← h other p]
  by_cases heq : other = value
  · subst heq
    rw [if_pos rfl, hnew, Option.some.injEq]
    simp [reduceCtorEq, eq_comm]
  · simp [heq]

lemma Represents.remove (hsync : self.Synced)
    (hperm : (entry :: queue.min_heap).Perm self.min_heap) : queue.Represents (map.update entry.value none) := by
  have hnodup := hsync.nodup
  rw [← (hperm.map Entry.value).nodup_iff, map_cons, nodup_cons] at hnodup
  intro other p
  rw [PriorityMap.update_apply]
  by_cases heq : other = entry.value
  · rw [if_pos heq]
    refine ⟨fun hnone => absurd hnone (Option.some_ne_none p).symm, fun hmem => ?_⟩
    exact absurd (List.mem_map.mpr ⟨_, hmem, heq⟩) hnodup.1
  rw [if_neg heq, h other p, ← hperm.mem_iff, mem_cons]
  refine or_iff_right fun hent => heq ?_
  rw [← hent]

lemma Represents.change (hent : entry ∈ self.min_heap) (hqueue : queue.Synced)
    (hperm : (entry :: queue.min_heap).Perm (⟨priority, entry.value⟩ :: self.min_heap)) :
    queue.Represents (map.update entry.value (some priority)) := by
  -- the new entry is there, and it is the only one of its value
  have hnew : ⟨priority, entry.value⟩ ∈ queue.min_heap := by
    have hmem := hperm.mem_iff.mpr (.head _)
    rw [mem_cons] at hmem
    rcases hmem with heq | hmem
    · rw [heq] at hperm ⊢
      exact ((perm_cons entry).mp hperm).mem_iff.mpr hent
    · exact hmem
  intro other p
  rw [PriorityMap.update_apply]
  by_cases heq : other = entry.value
  · rw [if_pos heq, Option.some.injEq]
    constructor
    · rintro rfl
      exact heq ▸ hnew
    · intro hmem
      have hsame := inj_on_of_nodup_map hqueue.nodup hnew hmem heq.symm
      rw [Entry.mk.injEq] at hsame
      exact hsame.1
  have hother (e : Entry V) (he : e.value = entry.value) : (⟨p, other⟩ : Entry V) ≠ e := by
    rintro rfl
    exact heq he
  have hmem := hperm.mem_iff (a := ⟨p, other⟩)
  rw [mem_cons, mem_cons, or_iff_right (hother entry rfl), or_iff_right (hother ⟨priority, entry.value⟩ rfl)] at hmem
  rw [if_neg heq, h other p, hmem]

end

/-- The queue keeps its invariant and holds the entries of the map. -/
structure Refines (queue : PriorityQueue V) (map : PriorityMap V) : Prop where
  valid : queue.Valid
  represents : queue.Represents map

variable (h : self.Refines map) {value : V}
include h

/-- `Minimum` returns an entry of least priority. -/
lemma Refines.minimum_spec (hent : self.is_empty = false) :
    ∃ entry, self.minimum = .ok entry ∧ self.min_heap[0]? = some entry ∧ map.Least entry.value entry.priority := by
  have hpos : 0 < self.size := by
    rw [is_empty, beq_eq_false_iff_ne] at hent
    exact Nat.pos_of_ne_zero hent
  obtain ⟨entry, hroot⟩ := exists_entry hpos
  refine ⟨entry, ?_, hroot, (h.represents _ _).mpr (mem_of_getElem? hroot), ?_⟩
  · rw [minimum, hent, Bool.not_false, check_true, ok_bind, entry_at_eq hroot]
  · intro other p hp
    obtain ⟨offset, hoff⟩ := mem_iff_getElem?.mp ((h.represents other p).mp hp)
    have hle := h.valid.ordered.root_le offset (List.getElem?_eq_some_iff.mp hoff).1
    rwa [priorityAt_eq hroot, priorityAt_eq hoff] at hle

lemma Refines.insert_spec (priority : Int) (hnew : self.contains_value value = false) :
    ∃ queue, self.insert priority value = .ok queue ∧ map.Step (.insert priority value) (map.update value (some priority)) ∧
      queue.Refines (map.update value (some priority)) := by
  obtain ⟨queue, hok, hv, hperm⟩ := h.valid.insert_spec priority hnew
  have hnone := (h.represents.eq_none_iff h.valid.synced).mpr hnew
  exact ⟨queue, hok, .insert hnone, hv, h.represents.insert hnone hperm⟩

lemma Refines.remove_minimum_spec (hent : self.is_empty = false) :
    ∃ queue map', self.remove_minimum = .ok queue ∧ map.Step .remove_minimum map' ∧ queue.Refines map' := by
  obtain ⟨entry, -, hroot, hleast⟩ := h.minimum_spec hent
  obtain ⟨queue, hok, hv, hperm⟩ := h.valid.remove_at_spec hroot fun hpos => absurd hpos (Nat.lt_irrefl 0)
  refine ⟨queue, _, ?_, .remove_minimum hleast, hv, h.represents.remove h.valid.synced hperm⟩
  rw [remove_minimum, hent, Bool.not_false, check_true, ok_bind, hok]

lemma Refines.remove_by_value_spec (hsafe : self.RemovalSafe value) :
    ∃ removed queue, self.remove_by_value value = .ok (removed, queue) ∧ queue.Refines (map.update value none) := by
  cases hfind : self.find_map_entry value with
  | none =>
    refine ⟨false, self, by rw [remove_by_value, hfind], h.valid, ?_⟩
    have hnone : map value = none := by
      rw [h.represents.eq_none_iff h.valid.synced, contains_value, hfind]
      rfl
    have hsame : map.update value none = map := by
      rw [← hnone]
      exact Function.update_eq_self value map
    rw [hsame]
    exact h.represents
  | some offset =>
    obtain ⟨entry, hent, rfl⟩ := (h.valid.synced value offset).mp hfind
    obtain ⟨queue, hok, hv, hperm⟩ := h.valid.remove_at_spec hent (hsafe offset hfind)
    refine ⟨true, queue, ?_, hv, h.represents.remove h.valid.synced hperm⟩
    simp [remove_by_value, hfind, hok, hv.synced.card_keys]

/-- `RemoveByValue` breaks the heap order when the last entry does not fit under the parent of the removed one. -/
lemma Refines.removal_safe {removed : Bool} (hok : self.remove_by_value value = .ok (removed, queue))
    (hord : Ordered (priorityAt queue.min_heap) queue.size) : self.RemovalSafe value := by
  intro offset hfind
  obtain ⟨entry, hent, rfl⟩ := (h.valid.synced value offset).mp hfind
  simp only [remove_by_value, hfind, bind_eq_ok_iff, pure_eq_ok, Except.ok.injEq, Prod.mk.injEq] at hok
  obtain ⟨queue', hremove, -, -, -, rfl⟩ := hok
  exact h.valid.safe_of_remove_at hent hremove hord

lemma Refines.insert_or_change_priority_spec (priority : Int) (value : V)
    (hfits : ∀ other ∈ self.min_heap, Fits (priority - other.priority)) :
    ∃ added queue, self.insert_or_change_priority priority value = .ok (added, queue) ∧
      queue.Refines (map.update value (some priority)) := by
  cases hfind : self.find_map_entry value with
  | none =>
    have hnew : self.contains_value value = false := by
      rw [contains_value, hfind]
      rfl
    obtain ⟨queue, hok, -, href⟩ := h.insert_spec priority hnew
    refine ⟨true, queue, ?_, href⟩
    simp [insert_or_change_priority, hfind, hok]
  | some offset =>
    obtain ⟨entry, hent, rfl⟩ := (h.valid.synced value offset).mp hfind
    obtain ⟨queue, hok, hv, hperm⟩ := h.valid.change_priority_spec hent priority hfits
    exact ⟨false, queue, hok, hv, h.represents.change (mem_of_getElem? hent) hv.synced hperm⟩

/-- One operation of the queue is one step of the map. -/
lemma Refines.step_spec {op : Op V} (hperm : self.permits op = true)
    (hsafe : ∀ value, op = .remove_by_value value → self.RemovalSafe value)
    (hfits : ∀ p, op.priority = some p → ∀ other ∈ self.min_heap, Fits (p - other.priority)) :
    ∃ queue map', self.step op = .ok queue ∧ map.Step op map' ∧ queue.Refines map' := by
  cases op with
  | insert priority value =>
    obtain ⟨queue, hok, hstep, href⟩ := h.insert_spec priority (by simpa only [permits, Bool.not_eq_true'] using hperm)
    exact ⟨queue, _, hok, hstep, href⟩
  | remove_minimum => exact h.remove_minimum_spec (by simpa only [permits, Bool.not_eq_true'] using hperm)
  | remove_by_value value =>
    obtain ⟨removed, queue, hok, href⟩ := h.remove_by_value_spec (hsafe value rfl)
    exact ⟨queue, _, by rw [step, hok, ok_bind, pure_eq_ok], .remove_by_value, href⟩
  | insert_or_change_priority priority value =>
    obtain ⟨added, queue, hok, href⟩ := h.insert_or_change_priority_spec priority value (hfits priority rfl)
    exact ⟨queue, _, by rw [step, hok, ok_bind, pure_eq_ok], .insert_or_change_priority, href⟩

end PriorityQueue
end dart.priority_queue
