import DartVM.PriorityQueue.Reference

namespace dart.priority_queue.PriorityQueue
open binary_heap int64 List
variable {V : Type} [DecidableEq V] {ops before : List (Op V)} {queue : PriorityQueue V}

section
variable (ops : List (Op V))

/-- The queue after the operations is a heap in agreement with its map, and `Minimum` returns an entry of
least priority among those of the reference. -/
def Correct : Prop :=
  ∃ queue map, run ops = .ok queue ∧ PriorityMap.Run ops map ∧ Ordered (priorityAt queue.min_heap) queue.size ∧
    queue.Synced ∧ queue.Represents map ∧
    (queue.is_empty = false → ∃ entry, queue.minimum = .ok entry ∧ map.Least entry.value entry.priority)

/-- Every operation finds the queue it requires. -/
def Permitted : Prop :=
  ∀ before op, before ++ [op] <+: ops → ∀ queue, run before = .ok queue → queue.permits op = true

/-- No `RemoveByValue` moves the last entry under a greater one. -/
def SafeRemovals : Prop :=
  ∀ before value, before ++ [.remove_by_value value] <+: ops → ∀ queue, run before = .ok queue → queue.RemovalSafe value

/-- The differences of the priorities of a run fit into `intptr_t`. -/
def DifferencesFit : Prop :=
  ∀ p ∈ ops.filterMap Op.priority, ∀ q ∈ ops.filterMap Op.priority, Fits (p - q)

end

omit [DecidableEq V] in
lemma forall_prefix_iff {P : List (Op V) → Op V → Prop} :
    (∀ before op, before ++ [op] <+: ops → P before op) ↔ ∀ k : Fin ops.length, P (ops.take k) ops[k] := by
  constructor
  · intro h k
    refine h _ _ ?_
    rw [Fin.getElem_fin, ← take_succ_eq_append_getElem k.isLt]
    exact take_prefix _ _
  · rintro h before op ⟨rest, rfl⟩
    have hk := h ⟨before.length, by simp⟩
    simpa using hk

instance : Decidable (Permitted ops) :=
  decidable_of_iff (∀ k : Fin ops.length, ∀ queue ∈ (run (ops.take k)).toOption, queue.permits ops[k] = true) (by
    rw [Permitted, forall_prefix_iff]
    simp only [Option.mem_def, toOption_eq_some_iff])

instance (self : PriorityQueue V) (value : V) : Decidable (self.RemovalSafe value) :=
  inferInstanceAs (Decidable (∀ offset ∈ self.find_map_entry value, 0 < offset →
    priorityAt self.min_heap ((offset - 1) / 2) ≤ priorityAt self.min_heap (self.size - 1)))

/-- Whether the removals are safe can be told from the queues before them. -/
lemma safeRemovals_iff : SafeRemovals ops ↔ ∀ k : Fin ops.length, ∀ value ∈ ops[k].removed,
    ∀ queue ∈ (run (ops.take k)).toOption, queue.RemovalSafe value := by
  have hremoved (op : Op V) (value : V) : value ∈ op.removed ↔ op = .remove_by_value value := by
    cases op <;> simp [Op.removed, eq_comm]
  simp only [hremoved, Option.mem_def, toOption_eq_some_iff]
  rw [← forall_prefix_iff (P := fun before op => ∀ value, op = .remove_by_value value →
    ∀ queue, run before = .ok queue → queue.RemovalSafe value)]
  constructor
  · rintro h before op hinit value rfl
    exact h before value hinit
  · intro h before value hinit
    exact h before _ hinit value rfl

instance : Decidable (SafeRemovals ops) := decidable_of_iff _ safeRemovals_iff.symm

instance : Decidable (DifferencesFit ops) :=
  inferInstanceAs (Decidable (∀ p ∈ ops.filterMap Op.priority, ∀ q ∈ ops.filterMap Op.priority, Fits (p - q)))

lemma empty_refines : (empty : PriorityQueue V).Refines fun _ => none := by
  refine ⟨⟨?_, ?_, ?_, ?_⟩, ?_⟩
  · intro value offset
    simp [empty, find_map_entry]
  · intro i _ hi
    exact absurd hi (Nat.not_lt_zero i)
  · exact Nat.zero_le _
  · exact Nat.le_refl _
  · intro value priority
    simp [empty]

lemma Refines.correct {map : PriorityMap V} (h : queue.Refines map)
    (hrun : run ops = .ok queue) (hmap : PriorityMap.Run ops map) : Correct ops := by
  refine ⟨queue, map, hrun, hmap, h.valid.ordered, h.valid.synced, h.represents, fun hent => ?_⟩
  obtain ⟨entry, hok, -, hleast⟩ := h.minimum_spec hent
  exact ⟨entry, hok, hleast⟩

section
variable (hpermitted : Permitted ops) (hfits : DifferencesFit ops)
include hpermitted hfits

/-- While the removals are safe, the queue refines the map. -/
lemma run_refines (hsafe : SafeRemovals ops) : ∀ {before}, before <+: ops →
    ∃ queue map, run before = .ok queue ∧ PriorityMap.Run before map ∧ queue.Refines map := by
  intro before
  induction before using reverseRecOn with
  | nil => exact fun _ => ⟨empty, _, rfl, .empty, empty_refines⟩
  | append_singleton before op ih =>
    intro hinit
    obtain ⟨queue, map, hrun, hmap, href⟩ := ih ((prefix_append before [op]).trans hinit)
    have hprios := (hinit.filterMap Op.priority).subset
    rw [filterMap_append] at hprios
    obtain ⟨queue', map', hok, hstep, href'⟩ := href.step_spec (hpermitted before op hinit queue hrun)
      (fun value hop => hsafe before value (hop ▸ hinit) queue hrun)
      (fun p hp other hother => by
        refine hfits p (hprios ?_) other.priority (hprios ?_)
        · exact mem_append_right _ (List.mem_filterMap.mpr ⟨op, mem_singleton_self op, hp⟩)
        · exact mem_append_left _ (hmap.priority_mem ((href.represents _ _).mpr hother)))
    exact ⟨queue', map', by rw [run_append, hrun, ok_bind, hok], hmap.step hstep, href'⟩

/-- A removal that keeps the order was safe. -/
lemma removal_safe_of_correct (hsafe : SafeRemovals ops) {value : V}
    (hcorr : Correct (ops ++ [.remove_by_value value])) (hrun : run ops = .ok queue) : queue.RemovalSafe value := by
  obtain ⟨queue1, map, hrun1, -, href⟩ := run_refines hpermitted hfits hsafe (prefix_refl ops)
  obtain rfl : queue1 = queue := Except.ok.inj (hrun1.symm.trans hrun)
  obtain ⟨queue', -, hrun', -, hord, -⟩ := hcorr
  rw [run_append, hrun, ok_bind, step, bind_eq_ok_iff] at hrun'
  obtain ⟨⟨removed, queue2⟩, hok, hres⟩ := hrun'
  obtain rfl : queue2 = queue' := Except.ok.inj hres
  exact href.removal_safe hok hord

end

lemma Permitted.of_initial (h : Permitted ops) (hinit : before <+: ops) : Permitted before :=
  fun earlier op hear => h earlier op (hear.trans hinit)

omit [DecidableEq V] in
lemma DifferencesFit.of_initial (h : DifferencesFit ops) (hinit : before <+: ops) : DifferencesFit before := by
  have hsubset := (hinit.filterMap Op.priority).subset
  exact fun p hp q hq => h p (hsubset hp) q (hsubset hq)

lemma safe_of_correct (hpermitted : Permitted ops) (hfits : DifferencesFit ops)
    (hcorr : ∀ before, before <+: ops → Correct before) : ∀ {before}, before <+: ops → SafeRemovals before := by
  intro before
  induction before using reverseRecOn with
  | nil =>
    intro _ earlier value hear
    exact absurd (List.prefix_nil.mp hear) (append_ne_nil_of_right_ne_nil _ (cons_ne_nil _ _))
  | append_singleton before op ih =>
    intro hinit earlier value hear queue hrun
    have hbefore := (prefix_append before [op]).trans hinit
    rcases List.prefix_concat_iff.mp hear with heq | hear
    · obtain ⟨rfl, hop⟩ := append_inj' heq rfl
      obtain rfl := List.singleton_inj.mp hop
      exact removal_safe_of_correct (hpermitted.of_initial hbefore) (hfits.of_initial hbefore) (ih hbefore)
        (hcorr _ hinit) hrun
    · exact ih hbefore earlier value hear queue hrun

/-- The queue is correct at every point of a run if and only if every `RemoveByValue` of the run is safe. -/
theorem correct_iff_safeRemovals {W : Type} [DecidableEq W] {null : W} {ops : List (Op (NonNull null))}
    (hpermitted : Permitted ops) (hfits : DifferencesFit ops) : (∀ before, before <+: ops → Correct before) ↔ SafeRemovals ops := by
  constructor
  · intro hcorr
    exact safe_of_correct hpermitted hfits hcorr (prefix_refl ops)
  · intro hsafe before hinit
    obtain ⟨queue, map, hrun, hmap, href⟩ := run_refines hpermitted hfits hsafe hinit
    exact href.correct hrun hmap

instance (n : Nat) : OfNat (NonNull 0) (n + 1) := ⟨n + 1, n.succ_ne_zero⟩

/-- The last entry takes the place of the removed one. -/
def removedRoot : List (Op (NonNull 0)) := [.insert 3 1, .insert 7 2, .insert 5 3, .remove_by_value 1]

theorem correct_iff_safeRemovals_removedRoot :
    SafeRemovals removedRoot ∧ ∀ before, before <+: removedRoot → Correct before := by
  have hsafe : SafeRemovals removedRoot := by decide +kernel
  exact ⟨hsafe, (correct_iff_safeRemovals (by decide +kernel) (by decide +kernel)).mpr hsafe⟩

/-- An entry of priority 4 comes to lie under one of priority 10. -/
def misplacedEntry : List (Op (NonNull 0)) :=
  [.insert 1 1, .insert 10 2, .insert 2 3, .insert 11 4, .insert 12 5, .insert 3 6, .insert 4 7, .remove_by_value 4]

/-- Other changes bring the greater one to the top. -/
def wrongMinimum : List (Op (NonNull 0)) :=
  misplacedEntry ++ [.insert_or_change_priority 30 3, .insert_or_change_priority 40 6, .remove_minimum]

theorem minimum_wrongMinimum : Permitted wrongMinimum ∧ DifferencesFit wrongMinimum ∧
    (∃ queue, run misplacedEntry = .ok queue ∧ ¬Ordered (priorityAt queue.min_heap) queue.size) ∧
    ∃ queue, run wrongMinimum = .ok queue ∧ queue.minimum = .ok ⟨10, 2⟩ ∧ ⟨4, 7⟩ ∈ queue.min_heap := by
  refine ⟨by decide +kernel, by decide +kernel, ⟨_, rfl, ?_⟩, _, rfl, rfl, by decide⟩
  intro hord
  exact absurd (hord 3 (by decide) (by decide)) (by decide)

end dart.priority_queue.PriorityQueue
