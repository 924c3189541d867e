import DartVM.Exhaustiveness.Sound

namespace dart.exhaustiveness
open Space List SingleSpace Function
variable {T K : Type}

section
variable [DecidableEq T] [DecidableEq K] (types : StaticTypes T K) (create_unknown_static_type : Nat → T)

/-- The smaller type of two, if they are comparable. -/
def smaller_type (a b : T) : Option T :=
  if types.is_subtype_of a b then some a else if types.is_subtype_of b a then some b else none

/-- The entries of the second map that the first one does not have. -/
def other_properties (a b : List (K × Space T K)) : List (K × Space T K) :=
  b.filter fun entry => (a.lookup entry.1).isNone

/-- Computations that hand out numbers to new objects, or stop at a failed assertion. -/
abbrev Create := StateT Nat (Checked)

/-- `Space.fromSingleSpaces` of the intersections of all pairs, with an unknown space if some pair has
none. The object and the unknown type get the next free number. -/
def intersection_of_pairs (path : List K) (pairs : List (Option (SingleSpace T K))) : Create (Space T K) := fun next =>
  let single_spaces := pairs.filterMap id
  let single_spaces :=
    if pairs.any Option.isNone then single_spaces ++ [.mk (create_unknown_static_type next) [] []] else single_spaces
  .ok (Space.from_single_spaces types next path single_spaces, next + 1)

mutual

/-- An approximation of the intersection of two single spaces. -/
def create_single_space_intersection (path : List K) : SingleSpace T K → SingleSpace T K → Create (Option (SingleSpace T K))
  | .mk a_type a_properties _, b =>
    match smaller_type types a_type b.type with
    | none => return none
    | some type => do
      let properties ← intersect_properties path b.properties a_properties
      return some (.mk type (properties ++ other_properties a_properties b.properties) [])
termination_by structural a => a

/-- The loop over the properties of the first operand. -/
def intersect_properties (path : List K) (b_properties : List (K × Space T K)) :
    List (K × Space T K) → Create (List (K × Space T K))
  | [] => return []
  | (key, a_space) :: rest => do
    let space ← (match b_properties.lookup key with
      | some b_space => create_space_intersection (path ++ [key]) a_space b_space
      | none => pure a_space)
    return (key, space) :: (← intersect_properties path b_properties rest)
termination_by structural a_properties => a_properties

/-- An approximation of the intersection of two spaces. -/
def create_space_intersection (path : List K) : Space T K → Space T K → Create (Space T K)
  | .mk _ a_path a_single_spaces, b =>
    if path = a_path ∧ path = b.path then do
      let pairs ← intersect_single_spaces path b.single_spaces a_single_spaces
      intersection_of_pairs types create_unknown_static_type path pairs
    else throw .assertion
termination_by structural a => a

/-- The loops over the single spaces of both operands. -/
def intersect_single_spaces (path : List K) (b_single_spaces : List (SingleSpace T K)) :
    List (SingleSpace T K) → Create (List (Option (SingleSpace T K)))
  | [] => return []
  | a :: rest => do
    let pairs ← b_single_spaces.mapM fun b => create_single_space_intersection path a b
    return pairs ++ (← intersect_single_spaces path b_single_spaces rest)
termination_by structural a_single_spaces => a_single_spaces

end
end

section

/-- The space is that of a property of the other one. -/
def PropertyOf (t s : Space T K) : Prop := ∃ single ∈ s.single_spaces, ∃ p ∈ single.properties, t = p.2

/-- The spaces that exist as objects, with numbers below the next free one. -/
structure Heap (T K : Type) where
  space : Nat → Space T K
  next : Nat

/-- The spaces of all nested properties are objects. -/
def Located (heap : Heap T K) (s : Space T K) : Prop :=
  ∀ t, Relation.TransGen PropertyOf t s → heap.space t.object = t ∧ t.object < heap.next

/-- The object of a space and those of its properties. -/
def Placed (heap : Heap T K) (s : Space T K) : Prop :=
  heap.space s.object = s ∧ s.object < heap.next ∧ Located heap s

variable {heap heap' : Heap T K} {s : Space T K}

lemma located_iff :
    Located heap s ↔ ∀ single ∈ s.single_spaces, ∀ p ∈ single.properties, Placed heap p.2 := by
  constructor
  · intro h single hsing p hp
    have hprop : PropertyOf p.2 s := ⟨single, hsing, p, hp, rfl⟩
    obtain ⟨hheap, hlt⟩ := h p.2 (.single hprop)
    exact ⟨hheap, hlt, fun t ht => h t (ht.tail hprop)⟩
  · intro h t ht
    cases ht with
    | single ht =>
      obtain ⟨single, hsing, p, hp, rfl⟩ := ht
      exact ⟨(h single hsing p hp).1, (h single hsing p hp).2.1⟩
    | tail ht hlast =>
      obtain ⟨single, hsing, p, hp, rfl⟩ := hlast
      exact (h single hsing p hp).2.2 t ht

/-- The heap keeps its objects, and there may be new ones. -/
def Grows (heap heap' : Heap T K) : Prop :=
  heap.next ≤ heap'.next ∧ ∀ object < heap.next, heap'.space object = heap.space object

lemma Grows.refl : Grows heap heap := ⟨le_rfl, fun _ _ => rfl⟩

lemma Grows.trans {heap'' : Heap T K} (h : Grows heap heap')
    (h' : Grows heap' heap'') : Grows heap heap'' :=
  ⟨h.1.trans h'.1, fun object hlt => (h'.2 object (hlt.trans_le h.1)).trans (h.2 object hlt)⟩

lemma Located.mono (h : Located heap s) (hgrows : Grows heap heap') : Located heap' s := by
  intro t ht
  obtain ⟨hheap, hlt⟩ := h t ht
  exact ⟨(hgrows.2 _ hlt).trans hheap, hlt.trans_le hgrows.1⟩

lemma Placed.mono (h : Placed heap s) (hgrows : Grows heap heap') : Placed heap' s :=
  ⟨(hgrows.2 _ h.2.1).trans h.1, h.2.1.trans_le hgrows.1, h.2.2.mono hgrows⟩

/-- A single space that an intersection creates. -/
def Kept (heap : Heap T K) (s : SingleSpace T K) : Prop :=
  s.additional_properties = [] ∧ ∀ p ∈ s.properties, Placed heap p.2

lemma Kept.mono {s : SingleSpace T K} (h : Kept heap s)
    (hgrows : Grows heap heap') : Kept heap' s := ⟨h.1, fun p hp => (h.2 p hp).mono hgrows⟩

/-- What a computation returns and leaves behind. -/
def Creates {α : Type} (x : Create α) (heap : Heap T K) (P : α → Heap T K → Prop) : Prop :=
  ∃ a heap', x heap.next = .ok (a, heap'.next) ∧ Grows heap heap' ∧ P a heap'

lemma Creates.pure {α : Type} {a : α} {P : α → Heap T K → Prop} (h : P a heap) :
    Creates (Pure.pure a) heap P := ⟨a, heap, rfl, .refl, h⟩

lemma Creates.imp {α : Type} {x : Create α} {P Q : α → Heap T K → Prop} (h : Creates x heap P)
    (himp : ∀ a heap', P a heap' → Q a heap') : Creates x heap Q := by
  obtain ⟨a, heap1, hx, hgrows, ha⟩ := h
  exact ⟨a, heap1, hx, hgrows, himp a heap1 ha⟩

lemma Creates.bind {α β : Type} {x : Create α} {f : α → Create β} {P : α → Heap T K → Prop}
    {Q : β → Heap T K → Prop} (hx : Creates x heap P)
    (hf : ∀ a heap', Grows heap heap' → P a heap' → Creates (f a) heap' Q) :
    Creates (x >>= f) heap Q := by
  obtain ⟨a, heap1, hx, hgrows, ha⟩ := hx
  obtain ⟨b, heap2, hb, hgrows', hQ⟩ := hf a heap1 hgrows ha
  refine ⟨b, heap2, ?_, hgrows.trans hgrows', hQ⟩
  change (x heap.next >>= fun p => f p.1 p.2) = _
  rw [hx, ok_bind, hb]

variable {types : StaticTypes T K} (U : Universe types)

/-- The unknown types, which have no values. -/
structure UnknownTypes where
  create : Nat → T
  not_hasType : ∀ n v, ¬U.HasType v (create n)

variable {U}

lemma smaller_type_eq_none_iff (a b : T) : smaller_type types a b = none ↔
    ¬(types.is_subtype_of a b = true ∨ types.is_subtype_of b a = true) := by
  rw [smaller_type]
  split_ifs with hab hba <;> simp [*]

lemma hasType_smaller_type {a b type : T} (h : smaller_type types a b = some type) (v : U.Value) :
    U.HasType v type ↔ U.HasType v a ∧ U.HasType v b := by
  rw [smaller_type] at h
  split_ifs at h with hab hba
  · rw [← Option.some.inj h]
    exact ⟨fun hv => ⟨hv, U.hasType_of_is_subtype_of a b hab v hv⟩, And.left⟩
  · rw [← Option.some.inj h]
    exact ⟨fun hv => ⟨U.hasType_of_is_subtype_of b a hba v hv, hv⟩, And.right⟩

/-- A result matches no value that not both operands match, and every value that both match, each under a condition. -/
structure Agrees {V : Type} (sound complete : Prop) (result both : V → Prop) : Prop where
  sound : sound → ∀ v, result v → both v
  complete : complete → ∀ v, both v → result v

section
variable {V : Type} {sound complete sound' complete' : Prop} {result both result' both' : V → Prop}

lemma Agrees.congr (h : Agrees sound complete result both) (hsound : sound' → sound) (hcomplete : complete' → complete)
    (hresult : ∀ v, result' v ↔ result v) (hboth : ∀ v, both' v ↔ both v) : Agrees sound' complete' result' both' :=
  ⟨fun hs v hv => (hboth v).mpr (h.sound (hsound hs) v ((hresult v).mp hv)),
    fun hc v hv => (hresult v).mpr (h.complete (hcomplete hc) v ((hboth v).mp hv))⟩

lemma Agrees.or (h : Agrees sound complete result both) (h' : Agrees sound' complete' result' both') :
    Agrees (sound ∧ sound') (complete ∧ complete') (fun v => result v ∨ result' v) fun v => both v ∨ both' v :=
  ⟨fun hs v => .imp (h.sound hs.1 v) (h'.sound hs.2 v), fun hc v => .imp (h.complete hc.1 v) (h'.complete hc.2 v)⟩

end

/-- The intersections of a single space with others. -/
lemma mapM_spec {f : SingleSpace T K → Create (Option (SingleSpace T K))} {sound complete : SingleSpace T K → Prop}
    {both : SingleSpace T K → U.Value → Prop} (bs : List (SingleSpace T K)) (heap : Heap T K)
    (hf : ∀ b ∈ bs, ∀ heap', Grows heap heap' → Creates (f b) heap' fun result heap'' =>
      (∀ s, result = some s → Kept heap'' s) ∧
        Agrees (sound b) (complete b) (fun v => ∃ s, result = some s ∧ s.Matches U v) (both b)) :
    Creates (bs.mapM f) heap fun pairs heap' => (∀ s, some s ∈ pairs → Kept heap' s) ∧
      Agrees (∀ b ∈ bs, sound b) (∀ b ∈ bs, complete b) (fun v => ∃ s, some s ∈ pairs ∧ s.Matches U v)
        fun v => ∃ b ∈ bs, both b v := by
  induction bs generalizing heap with
  | nil => exact .pure ⟨fun s hs => absurd hs not_mem_nil, fun _ v hv => by simp at hv, fun _ v hv => by simp at hv⟩
  | cons b rest ih =>
    rw [mapM_cons]
    refine (hf b mem_cons_self heap .refl).bind fun result heap1 hgrows1 ⟨hkept1, hagrees1⟩ => ?_
    refine (ih heap1 fun b' hb' heap' hgrows' => hf b' (.tail _ hb') heap' (hgrows1.trans hgrows')).bind
      fun pairs heap2 hgrows2 ⟨hkept2, hagrees2⟩ => .pure ⟨fun s hs => ?_, ?_⟩
    · rcases mem_cons.mp hs with hs | hs
      · exact (hkept1 s hs.symm).mono hgrows2
      · exact hkept2 s hs
    · refine (hagrees1.or hagrees2).congr forall_mem_cons.mp forall_mem_cons.mp (fun v => ?_) fun v => exists_mem_cons_iff ..
      rw [← exists_or]
      refine exists_congr fun s => ?_
      rw [mem_cons, or_and_right, eq_comm]

variable [DecidableEq K]

/-- The types are comparable by subtyping. -/
def Comparable (types : StaticTypes T K) (a b : SingleSpace T K) : Prop :=
  types.is_subtype_of a.type b.type = true ∨ types.is_subtype_of b.type a.type = true

/-- The pairs of spaces whose intersections are part of the intersection of two spaces, with their paths. -/
inductive Meets (types : StaticTypes T K) (path : List K) (a b : Space T K) : List K → Space T K → Space T K → Prop where
  | refl : Meets types path a b path a b
  | property {path' : List K} {a' b' a_space b_space : Space T K} {s t : SingleSpace T K} {key : K} :
    Meets types path a b path' a' b' → s ∈ a'.single_spaces → t ∈ b'.single_spaces → Comparable types s t →
    (key, a_space) ∈ s.properties → t.properties.lookup key = some b_space →
    Meets types path a b (path' ++ [key]) a_space b_space

def ForMet (types : StaticTypes T K) (Q : List K → Space T K → Space T K → Prop) (path : List K) (a b : Space T K) : Prop :=
  ∀ path' a' b', Meets types path a b path' a' b' → Q path' a' b'

/-- The same for the properties that both operands have. -/
def ForShared (types : StaticTypes T K) (Q : List K → Space T K → Space T K → Prop) (path : List K)
    (b_properties a_properties : List (K × Space T K)) : Prop :=
  ∀ p ∈ a_properties, ∀ b_space, b_properties.lookup p.1 = some b_space → ForMet types Q (path ++ [p.1]) p.2 b_space

/-- The spaces are at the path, as the assertions require. -/
def AtPath (path : List K) (a b : Space T K) : Prop := path = a.path ∧ path = b.path

def ForPairs (P : SingleSpace T K → SingleSpace T K → Prop) (_ : List K) (a b : Space T K) : Prop :=
  ∀ s ∈ a.single_spaces, ∀ t ∈ b.single_spaces, P s t

/-- The same for a pair of single spaces, and for the properties that both have if they are intersected. -/
def ForSingles (types : StaticTypes T K) (P : SingleSpace T K → SingleSpace T K → Prop) (path : List K)
    (a b : SingleSpace T K) : Prop :=
  P a b ∧ (Comparable types a b → ForShared types (ForPairs P) path b.properties a.properties)

/-- The values of both types match all additional properties, which an intersection drops. -/
def Harmless (U : Universe types) (a b : SingleSpace T K) : Prop :=
  Comparable types a b → ∀ v, U.HasType v a.type → U.HasType v b.type →
    (∀ p ∈ a.additional_properties, p.2.Matches U (U.additional_property v p.1)) ∧
      ∀ p ∈ b.additional_properties, p.2.Matches U (U.additional_property v p.1)

lemma ForMet.shared {Q : List K → Space T K → Space T K → Prop} {path : List K} {a b : Space T K}
    (h : ForMet types Q path a b) {s t : SingleSpace T K} (hs : s ∈ a.single_spaces) (ht : t ∈ b.single_spaces)
    (hcomp : Comparable types s t) : ForShared types Q path t.properties s.properties := by
  intro p hp b_space hb path' a' b' hmeets
  refine h path' a' b' ?_
  induction hmeets with
  | refl => exact .property .refl hs ht hcomp hp hb
  | property _ hs' ht' hcomp' ha' hb' ih => exact .property ih hs' ht' hcomp' ha' hb'

variable [DecidableEq T]

/-- `Space.fromSingleSpaces` of such single spaces is their union. -/
lemma from_single_spaces_matches {single_spaces : List (SingleSpace T K)}
    (hkept : ∀ s ∈ single_spaces, Kept heap s) (object : Nat) (path : List K) (v : U.Value) :
    (Space.from_single_spaces types object path single_spaces).Matches U v ↔ ∃ s ∈ single_spaces, s.Matches U v := by
  have hcons : Consistent (single_spaces ++ []) := by
    rw [append_nil]
    intro s hs t ht p hp q hq hobj
    rw [← ((hkept s hs).2 p hp).1, hobj, ((hkept t ht).2 q hq).1]
  have hadd : ∀ s ∈ single_spaces ++ [], s.additional_properties = [] := by
    rw [append_nil]
    exact fun s hs => (hkept s hs).1
  have hunion := (union_matches_iff object (.mk 0 path single_spaces) (.mk 0 path []) v).mpr
    (not_unionFails_of_no_additional_properties hcons hadd)
  have hres : (mk 0 path single_spaces).union types object (.mk 0 path []) =
      from_single_spaces types object path single_spaces := by
    rw [Space.union, Space.single_spaces, Space.single_spaces, List.append_nil, Space.path]
  rw [hres] at hunion
  rw [hunion, Space.matches_iff, Space.matches_iff]
  simp [Space.single_spaces]

omit [DecidableEq K] in
lemma mem_merge_null {set : List (SingleSpace T K)} {t : SingleSpace T K} (h : t ∈ merge_null types set) :
    t ∈ set ∨ t.properties = [] := by
  match set with
  | [] => exact .inr (by rw [mem_singleton.mp h]; rfl)
  | [a] => exact .inl h
  | [a, b] =>
    rw [merge_null] at h
    split_ifs at h
    · exact .inr (by rw [mem_singleton.mp h]; rfl)
    · exact .inr (by rw [mem_singleton.mp h]; rfl)
    · exact .inl h
  | a :: b :: c :: rest => exact .inl h

lemma intersection_of_pairs_spec (unknown : UnknownTypes U) (path : List K) {pairs : List (Option (SingleSpace T K))}
    (hkept : ∀ s, some s ∈ pairs → Kept heap s) :
    Creates (intersection_of_pairs types unknown.create path pairs) heap fun result heap' =>
      Placed heap' result ∧ ∀ v, result.Matches U v ↔ ∃ s, some s ∈ pairs ∧ s.Matches U v := by
  let single_spaces := if pairs.any Option.isNone then
    pairs.filterMap id ++ [.mk (unknown.create heap.next) [] []] else pairs.filterMap id
  have hmem : ∀ s ∈ single_spaces, some s ∈ pairs ∨ s = .mk (unknown.create heap.next) [] [] := by
    intro s hs
    simp only [single_spaces] at hs
    split_ifs at hs with hany
    · simpa using hs
    · simp only [mem_filterMap, id, exists_eq_right] at hs
      exact .inl hs
  have hmem' : ∀ s, some s ∈ pairs → s ∈ single_spaces := by
    intro s hs
    simp only [single_spaces]
    split_ifs
    · exact mem_append_left _ (mem_filterMap.mpr ⟨some s, hs, rfl⟩)
    · exact mem_filterMap.mpr ⟨some s, hs, rfl⟩
  have hall : ∀ s ∈ single_spaces, Kept heap s := by
    intro s hs
    rcases hmem s hs with hs | rfl
    · exact hkept s hs
    · exact ⟨rfl, fun p hp => absurd hp not_mem_nil⟩
  let result := from_single_spaces types heap.next path single_spaces
  have hgrows : Grows heap ⟨update heap.space heap.next result, heap.next + 1⟩ :=
    ⟨Nat.le_succ _, fun object hlt => update_of_ne hlt.ne _ _⟩
  refine ⟨result, _, rfl, hgrows, ⟨update_self .., Nat.lt_succ_self _, ?_⟩, fun v => ?_⟩
  · refine Located.mono (located_iff.mpr fun single hsing p hp => ?_) hgrows
    rcases mem_merge_null hsing with hsing | hnil
    · exact (hall single (mem_of_mem_collect hsing)).2 p hp
    · rw [hnil] at hp
      exact absurd hp not_mem_nil
  · refine (from_single_spaces_matches hall heap.next path v).trans ⟨?_, ?_⟩
    · rintro ⟨s, hs, hmatch⟩
      rcases hmem s hs with hs | rfl
      · exact ⟨s, hs, hmatch⟩
      · exact absurd (matches_iff.mp hmatch).1 (unknown.not_hasType heap.next v)
    · rintro ⟨s, hs, hmatch⟩
      exact ⟨s, hmem' s hs, hmatch⟩

/-- The value matches the spaces of the properties of one operand, and those of the other one under the same keys. -/
def BothMatch (U : Universe types) (b_properties a_properties : List (K × Space T K)) (v : U.Value) : Prop :=
  ∀ p ∈ a_properties, p.2.Matches U (U.property v p.1) ∧
    ∀ b_space, b_properties.lookup p.1 = some b_space → b_space.Matches U (U.property v p.1)

variable (unknown : UnknownTypes U)

mutual

lemma create_single_space_intersection_spec (path : List K) (b : SingleSpace T K) (heap : Heap T K)
    (hb : ∀ p ∈ b.properties, Placed heap p.2) (hok : b.Valid) : ∀ a : SingleSpace T K,
    (∀ p ∈ a.properties, Placed heap p.2) →
    (Comparable types a b → ForShared types AtPath path b.properties a.properties) →
    Creates (create_single_space_intersection types unknown.create path a b) heap fun result heap' =>
      (∀ s, result = some s → Kept heap' s) ∧
      Agrees (ForSingles types (Harmless U) path a b) (ForSingles types (Comparable types) path a b)
        (fun v => ∃ s, result = some s ∧ s.Matches U v) fun v => a.Matches U v ∧ b.Matches U v
  | .mk a_type a_properties a_additional, ha, hpaths => by
    rw [create_single_space_intersection]
    cases hty : smaller_type types a_type b.type with
    | none =>
      have hnot := (smaller_type_eq_none_iff _ _).mp hty
      exact .pure ⟨fun s hs => (nomatch hs), fun _ v ⟨s, hs, _⟩ => (nomatch hs), fun h => absurd h.1 hnot⟩
    | some type =>
      have hcomp : Comparable types (.mk a_type a_properties a_additional) b := by
        by_contra hnot
        rw [(smaller_type_eq_none_iff a_type b.type).mpr hnot] at hty
        cases hty
      obtain ⟨⟨hnodup, hvalid⟩, -⟩ := valid_iff.mp hok
      refine (intersect_properties_spec path b.properties heap hb hvalid a_properties ha (hpaths hcomp)).bind
        fun properties heap' hgrows ⟨hplaced, hagrees⟩ => .pure ⟨?_, ?_, ?_⟩
      · rintro s ⟨⟩
        exact ⟨rfl, forall_mem_append.mpr ⟨hplaced, fun p hp => (hb p (mem_filter.mp hp).1).mono hgrows⟩⟩
      · rintro ⟨hharmless, hshared⟩ v ⟨s, ⟨⟩, hmatch⟩
        obtain ⟨htype, hmatch, -⟩ := matches_iff.mp hmatch
        obtain ⟨ha_type, hb_type⟩ := (hasType_smaller_type hty v).mp htype
        obtain ⟨hprops, hother⟩ := forall_mem_append.mp hmatch
        obtain ⟨ha_additional, hb_additional⟩ := hharmless hcomp v ha_type hb_type
        have hboth := hagrees.sound (hshared hcomp) v (propertiesMatch_iff.mpr hprops)
        refine ⟨matches_iff.mpr ⟨ha_type, fun p hp => (hboth p hp).1, ha_additional⟩,
          matches_iff.mpr ⟨hb_type, fun p hp => ?_, hb_additional⟩⟩
        cases hlook : a_properties.lookup p.1 with
        | none => exact hother p (mem_filter.mpr ⟨hp, by rw [hlook]; rfl⟩)
        | some a_space => exact (hboth (p.1, a_space) (mem_of_lookup hlook)).2 p.2 (lookup_of_mem hnodup hp)
      · rintro ⟨-, hshared⟩ v ⟨ha, hb⟩
        obtain ⟨ha_type, ha, -⟩ := matches_iff.mp ha
        obtain ⟨hb_type, hb, -⟩ := matches_iff.mp hb
        have hprops := hagrees.complete (hshared hcomp) v fun p hp =>
          ⟨ha p hp, fun b_space hlook => hb (p.1, b_space) (mem_of_lookup hlook)⟩
        exact ⟨_, rfl, matches_iff.mpr ⟨(hasType_smaller_type hty v).mpr ⟨ha_type, hb_type⟩,
          forall_mem_append.mpr ⟨propertiesMatch_iff.mp hprops, fun p hp => hb p (mem_filter.mp hp).1⟩,
          fun p hp => absurd hp not_mem_nil⟩⟩
termination_by structural a => a

lemma intersect_properties_spec (path : List K) (b_properties : List (K × Space T K)) (heap : Heap T K)
    (hb : ∀ p ∈ b_properties, Placed heap p.2) (hok : ∀ p ∈ b_properties, p.2.Valid) :
    ∀ a_properties : List (K × Space T K), (∀ p ∈ a_properties, Placed heap p.2) →
    ForShared types AtPath path b_properties a_properties →
    Creates (intersect_properties types unknown.create path b_properties a_properties) heap fun result heap' =>
      (∀ p ∈ result, Placed heap' p.2) ∧
      Agrees (ForShared types (ForPairs (Harmless U)) path b_properties a_properties)
        (ForShared types (ForPairs (Comparable types)) path b_properties a_properties)
        (fun v => PropertiesMatch U (U.property v) result) (BothMatch U b_properties a_properties)
  | [], _, _ => .pure ⟨fun p hp => absurd hp not_mem_nil, fun _ _ _ p hp => absurd hp not_mem_nil, fun _ _ _ => trivial⟩
  | (key, a_space) :: rest, ha, hpaths => by
    rw [intersect_properties]
    obtain ⟨ha_space, hrest⟩ := forall_mem_cons.mp ha
    obtain ⟨hpath, hpaths⟩ := forall_mem_cons.mp hpaths
    refine .bind (P := fun space heap' => Placed heap' space ∧
      Agrees (∀ b_space, b_properties.lookup key = some b_space →
          ForMet types (ForPairs (Harmless U)) (path ++ [key]) a_space b_space)
        (∀ b_space, b_properties.lookup key = some b_space →
          ForMet types (ForPairs (Comparable types)) (path ++ [key]) a_space b_space)
        (fun v => space.Matches U v)
        fun v => a_space.Matches U v ∧ ∀ b_space, b_properties.lookup key = some b_space → b_space.Matches U v) ?_
      fun space heap1 hgrows1 ⟨hplaced1, hagrees1⟩ => ?_
    · cases hlook : b_properties.lookup key with
      | none => exact .pure ⟨ha_space, fun _ v h => ⟨h, nofun⟩, fun _ v h => h.1⟩
      | some b_space =>
        have hmem := mem_of_lookup hlook
        refine (create_space_intersection_spec (path ++ [key]) b_space heap (hb _ hmem).2.2 (hok _ hmem) a_space
          ha_space.2.2 (hpath b_space hlook)).imp fun space heap1 h => ⟨h.1, h.2.congr (fun hs => hs b_space rfl)
            (fun hc => hc b_space rfl) (fun v => .rfl) fun v => and_congr_right fun _ => ?_⟩
        exact ⟨fun h => h b_space rfl, fun h _ heq => Option.some.inj heq ▸ h⟩
    · refine (intersect_properties_spec path b_properties heap1 (fun p hp => (hb p hp).mono hgrows1) hok rest
        (fun p hp => (hrest p hp).mono hgrows1) hpaths).bind fun properties heap2 hgrows2 ⟨hplaced2, hagrees2⟩ =>
          .pure ⟨forall_mem_cons.mpr ⟨hplaced1.mono hgrows2, hplaced2⟩, ?_, ?_⟩
      · intro hs v hmatch
        obtain ⟨hs1, hs2⟩ := forall_mem_cons.mp hs
        exact forall_mem_cons.mpr ⟨hagrees1.sound hs1 _ hmatch.1, hagrees2.sound hs2 v hmatch.2⟩
      · intro hc v hboth
        obtain ⟨hc1, hc2⟩ := forall_mem_cons.mp hc
        obtain ⟨hboth1, hboth2⟩ := forall_mem_cons.mp hboth
        exact ⟨hagrees1.complete hc1 _ hboth1, hagrees2.complete hc2 v hboth2⟩
termination_by structural a_properties => a_properties

lemma create_space_intersection_spec (path : List K) (b : Space T K) (heap : Heap T K)
    (hb : Located heap b) (hok : b.Valid) : ∀ a : Space T K, Located heap a → ForMet types AtPath path a b →
    Creates (create_space_intersection types unknown.create path a b) heap fun result heap' =>
      Placed heap' result ∧
      Agrees (ForMet types (ForPairs (Harmless U)) path a b) (ForMet types (ForPairs (Comparable types)) path a b)
        (fun v => result.Matches U v) fun v => a.Matches U v ∧ b.Matches U v
  | .mk object a_path a_single_spaces, ha, hpaths => by
    rw [create_space_intersection, if_pos (show path = a_path ∧ _ from hpaths path _ _ .refl)]
    refine (intersect_single_spaces_spec path b.single_spaces heap (located_iff.mp hb) (Space.valid_iff.mp hok)
      a_single_spaces (located_iff.mp ha) fun s hs t ht => hpaths.shared hs ht).bind
      fun pairs heap1 hgrows ⟨hkept, hagrees⟩ => (intersection_of_pairs_spec unknown path hkept).imp
        fun result heap2 ⟨hplaced, hmatch⟩ => ⟨hplaced, hagrees.congr (fun h s hs t ht => ?_) (fun h s hs t ht => ?_)
          hmatch fun v => ?_⟩
    · exact ⟨h _ _ _ .refl s hs t ht, h.shared hs ht⟩
    · exact ⟨h _ _ _ .refl s hs t ht, h.shared hs ht⟩
    · rw [Space.matches_iff, Space.matches_iff]
      rfl
termination_by structural a => a

lemma intersect_single_spaces_spec (path : List K) (bs : List (SingleSpace T K)) (heap : Heap T K)
    (hb : ∀ b ∈ bs, ∀ p ∈ b.properties, Placed heap p.2) (hok : ∀ b ∈ bs, b.Valid) :
    ∀ as : List (SingleSpace T K), (∀ a ∈ as, ∀ p ∈ a.properties, Placed heap p.2) →
    (∀ a ∈ as, ∀ b ∈ bs, Comparable types a b → ForShared types AtPath path b.properties a.properties) →
    Creates (intersect_single_spaces types unknown.create path bs as) heap fun pairs heap' =>
      (∀ s, some s ∈ pairs → Kept heap' s) ∧
      Agrees (∀ a ∈ as, ∀ b ∈ bs, ForSingles types (Harmless U) path a b)
        (∀ a ∈ as, ∀ b ∈ bs, ForSingles types (Comparable types) path a b)
        (fun v => ∃ s, some s ∈ pairs ∧ s.Matches U v)
        fun v => (∃ a ∈ as, a.Matches U v) ∧ ∃ b ∈ bs, b.Matches U v
  | [], _, _ => .pure ⟨fun s hs => absurd hs not_mem_nil, fun _ v hv => by simp at hv, fun _ v hv => by simp at hv⟩
  | a :: rest, ha, hpaths => by
    rw [intersect_single_spaces]
    obtain ⟨ha, hrest⟩ := forall_mem_cons.mp ha
    obtain ⟨hpath, hpaths⟩ := forall_mem_cons.mp hpaths
    refine (mapM_spec bs heap fun b hbs heap' hgrows => create_single_space_intersection_spec path b heap'
      (fun p hp => (hb b hbs p hp).mono hgrows) (hok b hbs) a (fun p hp => (ha p hp).mono hgrows) (hpath b hbs)).bind
      fun pairs heap1 hgrows1 ⟨hkept1, hagrees1⟩ => ?_
    refine (intersect_single_spaces_spec path bs heap1 (fun b hbs p hp => (hb b hbs p hp).mono hgrows1) hok rest
      (fun a' ha' p hp => (hrest a' ha' p hp).mono hgrows1) hpaths).bind
      fun more_pairs heap2 hgrows2 ⟨hkept2, hagrees2⟩ => .pure ⟨fun s hs => ?_, ?_⟩
    · rcases mem_append.mp hs with hs | hs
      · exact (hkept1 s hs).mono hgrows2
      · exact hkept2 s hs
    · refine (hagrees1.or hagrees2).congr forall_mem_cons.mp forall_mem_cons.mp (fun v => ?_) fun v => ?_
      · rw [← exists_or]
        refine exists_congr fun s => ?_
        rw [mem_append, or_and_right]
      · rw [exists_mem_cons_iff, or_and_right]
        refine or_congr ⟨fun ⟨h, b, hbs, hm⟩ => ⟨b, hbs, h, hm⟩, fun ⟨b, hbs, h, hm⟩ => ⟨h, b, hbs, hm⟩⟩ .rfl
termination_by structural as => as

end

/-- An and-pattern matches no value that one of its operands does not match, if the additional properties that the
intersection drops make no difference; and it matches the values that both match if all types are comparable. -/
theorem intersection_correct (path : List K) (a b : Space T K) (heap : Heap T K)
    (ha : Located heap a) (hb : Located heap b) (hok : b.Valid) (hpaths : ForMet types AtPath path a b) :
    ∃ result next', create_space_intersection types unknown.create path a b heap.next = .ok (result, next') ∧
      (ForMet types (ForPairs (Harmless U)) path a b → ∀ v, result.Matches U v → a.Matches U v ∧ b.Matches U v) ∧
      (ForMet types (ForPairs (Comparable types)) path a b → ∀ v, a.Matches U v → b.Matches U v → result.Matches U v) := by
  obtain ⟨result, _, hres, -, -, hagrees⟩ := create_space_intersection_spec unknown path b heap hb hok a ha hpaths
  exact ⟨result, _, hres, hagrees.sound, fun hc v hva hvb => hagrees.complete hc v ⟨hva, hvb⟩⟩

end

/-- The unknown type of the sample types. -/
def sample_unknown : UnknownTypes sample_universe where
  create _ := sample_types.never_type
  not_hasType _ := sample_universe.not_hasType_never

/-- No nested properties, no objects. -/
lemma located_of_no_properties {heap : Heap T K} {s : Space T K}
    (h : ∀ single ∈ s.single_spaces, single.properties = []) : Located heap s :=
  located_iff.mpr fun single hsing _ hp => absurd (h single hsing ▸ hp) not_mem_nil

lemma forPairs_singleton {P : SingleSpace T K → SingleSpace T K → Prop} {s t : SingleSpace T K} (h : P s t)
    {object object' : Nat} {path : List K} : ForPairs P path (.mk object path [s]) (.mk object' path [t]) :=
  forall_mem_singleton.mpr (forall_mem_singleton.mpr h)

/-- A pattern of lists with a member that is a list, and with elements. -/
def list_with_member (object : Nat) (elements : List (Unit × Space (SampleType × Bool) Unit)) :
    Space (SampleType × Bool) Unit :=
  .mk object [] [.mk (.list, false) [((), .of_type (object + 1) [()] (.list, false))] elements]

/-- `[_]` and a list without elements, both with the same member. The additional property matches every value. -/
theorem intersection_correct_members :
    let a := list_with_member 0 [((), .of_type 2 [()] (.object, true))]
    let b := list_with_member 3 []
    ∃ result next', create_space_intersection sample_types sample_unknown.create [] a b 5 = .ok (result, next') ∧
      ∀ v, result.Matches sample_universe v ↔ a.Matches sample_universe v ∧ b.Matches sample_universe v := by
  intro a b
  have hmeets {path' a' b'} (h : Meets sample_types [] a b path' a' b') : path' = [] ∧ a' = a ∧ b' = b ∨
      path' = [()] ∧ a' = .of_type 1 [()] (.list, false) ∧ b' = .of_type 4 [()] (.list, false) := by
    induction h with
    | refl => exact .inl ⟨rfl, rfl, rfl⟩
    | property _ hs ht _ ha hb ih =>
      obtain ⟨rfl, rfl, rfl⟩ | ⟨rfl, rfl, rfl⟩ := ih
      · obtain rfl := mem_singleton.mp hs
        obtain rfl := mem_singleton.mp ht
        cases mem_singleton.mp ha
        cases hb
        exact .inr ⟨rfl, rfl, rfl⟩
      · obtain rfl := mem_singleton.mp hs
        exact absurd ha not_mem_nil
  have hfor {Q} (h : Q [] a b) (h' : Q [()] (.of_type 1 [()] (.list, false)) (.of_type 4 [()] (.list, false))) :
      ForMet sample_types Q [] a b := by
    intro path' a' b' hm
    obtain ⟨rfl, rfl, rfl⟩ | ⟨rfl, rfl, rfl⟩ := hmeets hm
    · exact h
    · exact h'
  let heap : Heap (SampleType × Bool) Unit := ⟨fun object => .of_type object [()] (.list, false), 5⟩
  have hlocated (object : Nat) (hlt : object < 4) (elements) : Located heap (list_with_member object elements) :=
    located_iff.mpr fun single hsing p hp => by
      obtain rfl := mem_singleton.mp hsing
      obtain rfl := mem_singleton.mp hp
      exact ⟨rfl, Nat.add_lt_add_right hlt 1, located_of_no_properties (by simp [of_type, single_spaces, properties])⟩
  obtain ⟨result, next', hres, hsound, hcomplete⟩ := intersection_correct sample_unknown [] a b heap
    (hlocated 0 (by decide) _) (hlocated 3 (by decide) _) (by simp [b, list_with_member, Space.Valid, AllValid,
      SingleSpace.Valid, PropertiesValid, of_type]) (hfor ⟨rfl, rfl⟩ ⟨rfl, rfl⟩)
  refine ⟨result, next', hres, fun v => ⟨hsound (hfor (forPairs_singleton ?_) (forPairs_singleton ?_)) v,
    fun h => hcomplete (hfor (forPairs_singleton (.inl rfl)) (forPairs_singleton (.inl rfl))) v h.1 h.2⟩⟩
  · refine fun _ v _ _ => ⟨forall_mem_singleton.mpr ?_, fun p hp => absurd hp not_mem_nil⟩
    exact (of_type_matches ..).mpr (sample_universe.hasType_nullable_object _)
  · exact fun _ v _ _ => ⟨fun p hp => absurd hp not_mem_nil, fun p hp => absurd hp not_mem_nil⟩

/-- `[true] && [false]` matches `[true]`, which `[false]` does not match. -/
theorem intersection_drops_additional_properties :
    ∃ result next', create_space_intersection sample_types sample_unknown.create [] (list_pattern 0 true)
        (list_pattern 2 false) 4 = .ok (result, next') ∧ result.Matches sample_universe (.list true) ∧
      ¬(list_pattern 2 false).Matches sample_universe (.list true) := by
  refine ⟨_, _, rfl, ?_, ?_⟩
  · rw [Space.matches_iff]
    exact ⟨.mk (.list, false) [] [], mem_singleton_self _, matches_iff.mpr ⟨.inr trivial,
      by simp [properties], by simp [additional_properties]⟩⟩
  · simp [list_pattern, of_type, Space.Matches, SomeMatches, SingleSpace.Matches, PropertiesMatch, sample_universe,
      SampleType.Contains]

end dart.exhaustiveness
