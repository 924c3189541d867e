import DartVM.Lib.TriangularProbe
import DartVM.HashTable.Table

namespace dart.hash_table
open Nat

open triangular_probe
variable {α Key : Type}

namespace HashTable

def keyAt (self : HashTable α) (entry : Nat) : Option (Object α) := self.entries[entry]?.map Entry.key

variable {self : HashTable α} {entry : Nat} {a : α}

lemma lt_of_keyAt {key : Object α} (h : self.keyAt entry = some key) : entry < self.num_entries := by
  obtain ⟨e, he, -⟩ := Option.map_eq_some_iff.mp h
  exact (List.getElem?_eq_some_iff.mp he).1

lemma exists_keyAt (h : entry < self.num_entries) :
    ∃ e, self.entry_at entry = .ok e ∧ self.entries[entry]? = some e ∧ self.keyAt entry = some e.key := by
  have he : self.entries[entry]? = some (self.entries.get ⟨entry, h⟩) := List.getElem?_eq_getElem h
  exact ⟨_, by simp [entry_at, he], he, by simp [keyAt, he]⟩

lemma entry_at_of_getElem? {e : Entry α} (h : self.entries[entry]? = some e) : self.entry_at entry = .ok e := by
  simp [entry_at, h]

/-- Probing from `hash` comes to an entry without passing an unused one. -/
def Reaches (self : HashTable α) (hash entry : Nat) : Prop :=
  ∃ j, probe self.num_entries hash j = entry ∧
    ∀ i < j, self.keyAt (probe self.num_entries hash i) ≠ some .sentinel

/-- What the probe loops rely on: the size is a power of two and there is an unused
entry to stop at. -/
structure Probeable (table : HashTable α) : Prop where
  size : ∃ m, table.num_entries = 2 ^ m
  free : ∃ entry, table.keyAt entry = some .sentinel

variable {self : HashTable α} (h : self.Probeable)
include h

lemma Probeable.pos : 0 < self.num_entries := by
  obtain ⟨m, hm⟩ := h.size
  rw [hm]
  exact Nat.two_pow_pos m

lemma Probeable.is_power_of_two : utils.is_power_of_two self.num_entries = true := by
  obtain ⟨m, hm⟩ := h.size
  rw [hm]
  exact utils.is_power_of_two_two_pow m

lemma Probeable.and_mask (x : Nat) : x &&& (self.num_entries - 1) = x % self.num_entries := by
  obtain ⟨m, hm⟩ := h.size
  rw [hm]
  exact and_two_pow_sub_one_eq_mod x m

/-- The first unused entry on the way from a hash, less than a whole round away. -/
lemma Probeable.exists_stop (hash : Nat) : ∃ stop < self.num_entries, self.keyAt (probe self.num_entries hash stop) =
    some .sentinel ∧ ∀ i < stop, self.keyAt (probe self.num_entries hash i) ≠ some .sentinel := by
  classical
  obtain ⟨m, hm⟩ := h.size
  obtain ⟨entry, hent⟩ := h.free
  obtain ⟨j, hj, hprobe⟩ := exists_probe_eq m hash (hm ▸ lt_of_keyAt hent)
  have hex : ∃ j, self.keyAt (probe self.num_entries hash j) = some .sentinel := ⟨j, by rw [hm, hprobe, hent]⟩
  refine ⟨Nat.find hex, ?_, Nat.find_spec hex, fun i hi => Nat.find_min hex hi⟩
  calc Nat.find hex ≤ j := Nat.find_min' hex (by rw [hm, hprobe, hent])
    _ < self.num_entries := by omega

omit h in
/-- An entry that can be reached from a hash and is in use comes before the first
unused entry. -/
lemma Reaches.before {hash entry stop : Nat} (hreach : self.Reaches hash entry)
    (hkey : self.keyAt entry = some (.ref a)) (hstop : self.keyAt (probe self.num_entries hash stop) = some .sentinel) :
    ∃ j < stop, probe self.num_entries hash j = entry := by
  obtain ⟨j, hj, hpath⟩ := hreach
  refine ⟨j, ?_, hj⟩
  rcases lt_trichotomy j stop with hlt | rfl | hgt
  · exact hlt
  · rw [hj, hkey] at hstop
    cases hstop
  · exact absurd hstop (hpath stop hgt)

lemma Probeable.next_probe (hash j : Nat) : (probe self.num_entries hash j + (j + 1)) &&& (self.num_entries - 1) =
      probe self.num_entries hash (j + 1) := by
  rw [h.and_mask, probe_succ]

variable {traits : KeyTraits Key α} {key : Key} {stop : Nat} {j : Nat}

/-- No entry visited before the `j`-th one matches. -/
def NoMatchBefore (traits : KeyTraits Key α) (key : Key) (self : HashTable α) (j : Nat) : Prop :=
  ∀ i < j, ∀ a, self.keyAt (probe self.num_entries (traits.hash key) i) = some (.ref a) →
    traits.is_match key a = false

omit h in
lemma NoMatchBefore.succ (hbefore : NoMatchBefore traits key self j)
    (hj : ∀ a, self.keyAt (probe self.num_entries (traits.hash key) j) = some (.ref a) →
      traits.is_match key a = false) : NoMatchBefore traits key self (j + 1) := by
  intro i hi
  rcases Nat.lt_succ_iff_lt_or_eq.mp hi with hlt | rfl
  · exact hbefore i hlt
  · exact hj

section
variable (hstop : self.keyAt (probe self.num_entries (traits.hash key) stop) = some .sentinel)
  (hpath : ∀ i < stop, self.keyAt (probe self.num_entries (traits.hash key) i) ≠ some .sentinel)
include hstop hpath

omit h in
/-- Only the last entry visited is unused. -/
lemma eq_stop_iff (hj : j ≤ stop) {k : Object α}
    (hkey : self.keyAt (probe self.num_entries (traits.hash key) j) = some k) : j = stop ↔ k = .sentinel := by
  constructor
  · rintro rfl
    exact Option.some_inj.mp (hkey.symm.trans hstop)
  · rintro rfl
    exact hj.eq_of_not_lt fun hlt => hpath j hlt hkey

/-- The probe loop of `FindKey` ends at the first match or at the first unused entry. -/
lemma Probeable.find_key_loop_spec : ∀ (fuel j : Nat), j ≤ stop → stop < j + fuel → NoMatchBefore traits key self j →
      ∃ found, find_key_loop traits key self fuel (probe self.num_entries (traits.hash key) j) (j + 1) = .ok found ∧
        (found = none → NoMatchBefore traits key self stop) ∧
        ∀ entry, found = some entry → ∃ a, self.keyAt entry = some (.ref a) ∧ traits.is_match key a = true := by
  intro fuel
  induction fuel with
  | zero =>
    intro j hj hfuel
    omega
  | succ fuel ih =>
    intro j hj hfuel hbefore
    obtain ⟨e, hent, -, hkey⟩ := exists_keyAt (probe_lt h.pos (traits.hash key) j)
    have hlast := eq_stop_iff hstop hpath hj hkey
    rw [find_key_loop, hent, ok_bind]
    simp only [h.next_probe]
    cases hcase : e.key with
    | sentinel =>
      have hstopped : j = stop := hlast.mpr hcase
      exact ⟨none, rfl, fun _ => hstopped ▸ hbefore, by simp⟩
    | null_object =>
      have hlt : j ≠ stop := mt hlast.mp (by simp [hcase])
      refine ih (j + 1) (by omega) (by omega) (hbefore.succ ?_)
      simp [hkey, hcase]
    | ref a =>
      have hlt : j ≠ stop := mt hlast.mp (by simp [hcase])
      cases hmatch : traits.is_match key a with
      | true =>
        refine ⟨some (probe self.num_entries (traits.hash key) j), by simp [hmatch], by simp, ?_⟩
        rintro entry ⟨⟩
        exact ⟨a, by rw [hkey, hcase], hmatch⟩
      | false =>
        simp only [hmatch, Bool.false_eq_true, if_false]
        refine ih (j + 1) (by omega) (by omega) (hbefore.succ ?_)
        simpa [hkey, hcase] using hmatch

/-- The probe loop of `FindKeyOrDeletedOrUnused`. A deleted entry it remembers can be
reached from the hash. -/
lemma Probeable.find_key_or_deleted_or_unused_loop_spec :
    ∀ (fuel j : Nat) (deleted : Option Nat), j ≤ stop → stop < j + fuel → NoMatchBefore traits key self j →
      (∀ d, deleted = some d → self.keyAt d = some .null_object ∧ self.Reaches (traits.hash key) d) →
      ∃ present entry, find_key_or_deleted_or_unused_loop traits key self fuel
          (probe self.num_entries (traits.hash key) j) (j + 1) deleted = .ok (present, entry) ∧
        (present = true → ∃ a, self.keyAt entry = some (.ref a) ∧ traits.is_match key a = true) ∧
        (present = false → NoMatchBefore traits key self stop ∧ self.Reaches (traits.hash key) entry ∧
          (self.keyAt entry = some .sentinel ∨ self.keyAt entry = some .null_object)) := by
  intro fuel
  induction fuel with
  | zero =>
    intro j deleted hj hfuel
    omega
  | succ fuel ih =>
    intro j deleted hj hfuel hbefore hdel
    obtain ⟨e, hent, -, hkey⟩ := exists_keyAt (probe_lt h.pos (traits.hash key) j)
    have hlast := eq_stop_iff hstop hpath hj hkey
    have hreach : self.Reaches (traits.hash key) (probe self.num_entries (traits.hash key) j) :=
      ⟨j, rfl, fun i hi => hpath i (by omega)⟩
    rw [find_key_or_deleted_or_unused_loop, hent, ok_bind]
    simp only [h.next_probe]
    cases hcase : e.key with
    | sentinel =>
      have hstopped : j = stop := hlast.mpr hcase
      refine ⟨false, _, rfl, by simp, fun _ => ⟨hstopped ▸ hbefore, ?_⟩⟩
      cases deleted with
      | none => exact ⟨hreach, .inl (by rw [← hcase, ← hkey]; rfl)⟩
      | some d => exact ⟨(hdel d rfl).2, .inr (hdel d rfl).1⟩
    | null_object =>
      have hlt : j ≠ stop := mt hlast.mp (by simp [hcase])
      refine ih (j + 1) _ (by omega) (by omega) (hbefore.succ (by simp [hkey, hcase])) ?_
      intro d hd
      cases deleted with
      | none =>
        obtain rfl : probe self.num_entries (traits.hash key) j = d := by simpa using hd
        exact ⟨by rw [hkey, hcase], hreach⟩
      | some other => exact hdel d (by simpa using hd)
    | ref a =>
      have hlt : j ≠ stop := mt hlast.mp (by simp [hcase])
      cases hmatch : traits.is_match key a with
      | true =>
        refine ⟨true, probe self.num_entries (traits.hash key) j, by simp [hmatch], fun _ => ?_, by simp⟩
        exact ⟨a, by rw [hkey, hcase], hmatch⟩
      | false =>
        simp only [hmatch, Bool.false_eq_true, if_false]
        refine ih (j + 1) deleted (by omega) (by omega) (hbefore.succ ?_) hdel
        simpa [hkey, hcase] using hmatch

end

/-- Every key can be found by probing from its own hash. -/
def KeysReachable (traits : KeyTraits Key α) (self : HashTable α) : Prop :=
  ∀ entry a, self.keyAt entry = some (.ref a) → self.Reaches (traits.hash (traits.of_object a)) entry

variable (hlaw : traits.Lawful) (hreach : KeysReachable traits self)
include hlaw hreach

omit h in
/-- Where no entry before the first unused one matches, none in the table does. -/
lemma NoMatchBefore.everywhere (hstop : self.keyAt (probe self.num_entries (traits.hash key) stop) = some .sentinel)
    (hbefore : NoMatchBefore traits key self stop) {entry : Nat}
    (hkey : self.keyAt entry = some (.ref a)) : traits.is_match key a = false := by
  rw [Bool.eq_false_iff]
  intro hmatch
  have hreaches := hreach entry a hkey
  rw [← hlaw.hash_eq hmatch] at hreaches
  obtain ⟨j, hj, rfl⟩ := hreaches.before hkey hstop
  rw [hbefore j hj a hkey] at hmatch
  cases hmatch

/-- `FindKey` returns, and finds a matching key if there is one. -/
lemma Probeable.find_key_spec (key : Key) : ∃ found, self.find_key traits key = .ok found ∧
      (found = none → ∀ entry a, self.keyAt entry = some (.ref a) → traits.is_match key a = false) ∧
      ∀ entry, found = some entry → ∃ a, self.keyAt entry = some (.ref a) ∧ traits.is_match key a = true := by
  obtain ⟨stop, hlt, hstop, hpath⟩ := h.exists_stop (traits.hash key)
  obtain ⟨found, hfound, hnone, hsome⟩ := h.find_key_loop_spec hstop hpath
    self.num_entries 0 (zero_le _) (by omega) (fun i hi => absurd hi (by omega))
  refine ⟨found, ?_, fun hnot entry a => (hnone hnot).everywhere hlaw hreach hstop, hsome⟩
  rw [find_key, h.is_power_of_two, h.and_mask]
  simpa using hfound

/-- `FindKeyOrDeletedOrUnused` returns either a matching key or a place for it. -/
lemma Probeable.find_key_or_deleted_or_unused_spec (key : Key) :
    ∃ present entry, self.find_key_or_deleted_or_unused traits key = .ok (present, entry) ∧
      (present = true → ∃ a, self.keyAt entry = some (.ref a) ∧ traits.is_match key a = true) ∧
      (present = false → (∀ other a, self.keyAt other = some (.ref a) → traits.is_match key a = false) ∧
        self.Reaches (traits.hash key) entry ∧
        (self.keyAt entry = some .sentinel ∨ self.keyAt entry = some .null_object)) := by
  obtain ⟨stop, hlt, hstop, hpath⟩ := h.exists_stop (traits.hash key)
  obtain ⟨present, entry, hres, htrue, hfalse⟩ := h.find_key_or_deleted_or_unused_loop_spec hstop hpath
    self.num_entries 0 none (zero_le _) (by omega) (fun i hi => absurd hi (by omega)) (by simp)
  refine ⟨present, entry, ?_, htrue, fun habs => ?_⟩
  · rw [find_key_or_deleted_or_unused, h.is_power_of_two, h.and_mask]
    simpa using hres
  · obtain ⟨hbefore, hrest⟩ := hfalse habs
    exact ⟨fun other a => hbefore.everywhere hlaw hreach hstop, hrest⟩

end HashTable
end dart.hash_table
