import DartVM.PriorityQueue.Runs

namespace dart.priority_queue.TimeoutQueue

open int64 List PriorityQueue

def ILLEGAL_PORT : Int64 := 0

/-- The port of an isolate. -/
abbrev Port := NonNull ILLEGAL_PORT

/-- A call of `UpdateTimeout`, or `none` for one of `RemoveCurrent`. -/
abbrev Event := Option (Port × Int64)

def update_timeout (port : Port) (timeout : Int64) : Op Port :=
  if timeout < 0 then .remove_by_value port else .insert_or_change_priority timeout.toInt port

def calls (events : List Event) : List (Op Port) :=
  events.map fun
    | none => .remove_minimum
    | some (port, timeout) => update_timeout port timeout

/-- The loop of the destructor, with the timeouts that it removes. -/
def remove_all (queue : PriorityQueue Port) : Nat → Checked (List (Entry Port))
  | 0 => .error .out_of_fuel
  | fuel + 1 =>
    if queue.is_empty then .ok []
    else do
      let current ← queue.minimum
      return current :: (← remove_all (← queue.remove_minimum) fuel)

lemma remove_all_spec {queue : PriorityQueue Port} {map : PriorityMap Port} (h : queue.Refines map) :
    ∃ entries, remove_all queue (queue.size + 1) = .ok entries ∧ entries.Perm queue.min_heap ∧
      entries.Pairwise fun e f => e.priority ≤ f.priority := by
  induction hsize : queue.size generalizing queue map with
  | zero => exact ⟨[], by simp [remove_all, is_empty, hsize], by rw [length_eq_zero_iff.mp hsize], .nil⟩
  | succ n ih =>
    have hent : queue.is_empty = false := by simp [is_empty, hsize]
    obtain ⟨current, hmin, hroot, -, hleast⟩ := h.minimum_spec hent
    obtain ⟨rest, hok, hv, hperm⟩ := h.valid.remove_at_spec hroot fun hpos => absurd hpos (Nat.lt_irrefl 0)
    obtain ⟨entries, hrest, hperm', hsorted⟩ := ih ⟨hv, h.represents.remove h.valid.synced hperm⟩
      (by simpa [size, hsize] using hperm.length_eq.trans hsize)
    -- what is left was in the queue with the current timeout, which is least
    refine ⟨current :: entries, ?_, (hperm'.cons current).trans hperm, hsorted.cons fun e he => ?_⟩
    · rw [remove_all, hent, if_neg Bool.false_ne_true, hmin, ok_bind, remove_minimum, hent, Bool.not_false, check_true,
        ok_bind, hok, ok_bind, hrest, ok_bind, pure_eq_ok]
    · exact hleast e.value _ ((h.represents _ _).mpr (hperm.subset (mem_cons_of_mem _ (hperm'.subset he))))

end dart.priority_queue.TimeoutQueue
