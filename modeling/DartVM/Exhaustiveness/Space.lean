import Mathlib.Data.List.Basic
import Mathlib.Data.List.Induction

namespace dart.exhaustiveness

/-- The operations of `StaticType` that the checker and the spaces use. -/
structure StaticTypes (T K : Type) where
  never_type : T
  null_type : T
  nullable_object : T
  nullable : T → T
  is_subtype_of : T → T → Bool
  is_sealed : T → Bool
  get_subtypes : List K → T → List T
  get_property_type : T → K → Option T
  get_additional_property_type : T → K → Option T
  /-- The type of an `ExtensionKey`. -/
  extension_type : K → Option T
  /-- The order of the keys, `compareTo` being at most zero. -/
  key_le : K → K → Bool

mutual

/-- The main pattern for matching types and destructuring. The keys of the maps are different. -/
inductive SingleSpace (T K : Type) where
  | mk (type : T) (properties additional_properties : List (K × Space T K))

/-- A set of runtime values, encoded as a union of single spaces, with the path of getters that led to
them and the identity of the object. -/
inductive Space (T K : Type) where
  | mk (object : Nat) (path : List K) (single_spaces : List (SingleSpace T K))

end

variable {T K : Type}

namespace SingleSpace

def type : SingleSpace T K → T
  | mk type _ _ => type

def properties : SingleSpace T K → List (K × Space T K)
  | mk _ properties _ => properties

def additional_properties : SingleSpace T K → List (K × Space T K)
  | mk _ _ additional_properties => additional_properties

end SingleSpace

namespace Space

def object : Space T K → Nat
  | mk object _ _ => object

def path : Space T K → List K
  | mk _ path _ => path

def single_spaces : Space T K → List (SingleSpace T K)
  | mk _ _ single_spaces => single_spaces

/-- A new space of the values with a type. -/
def of_type (object : Nat) (path : List K) (type : T) : Space T K := .mk object path [.mk type [] []]

end Space

/-- Values with their types and properties, in which the operations on types are sound. -/
structure Universe (types : StaticTypes T K) where
  Value : Type
  HasType : Value → T → Prop
  property : Value → K → Value
  additional_property : Value → K → Value
  not_hasType_never : ∀ v, ¬HasType v types.never_type
  hasType_nullable_object : ∀ v, HasType v types.nullable_object
  hasType_nullable : ∀ v t, HasType v (types.nullable t) ↔ HasType v t ∨ HasType v types.null_type
  hasType_of_is_subtype_of : ∀ s t, types.is_subtype_of s t = true → ∀ v, HasType v s → HasType v t
  get_subtypes_covers : ∀ keys t, types.is_sealed t = true → ∀ v, HasType v t →
    ∃ s ∈ types.get_subtypes keys t, HasType v s
  hasType_property : ∀ t key s, types.get_property_type t key = some s → ∀ v, HasType v t → HasType (property v key) s
  hasType_additional_property : ∀ t key s, types.get_additional_property_type t key = some s →
    ∀ v, HasType v t → HasType (additional_property v key) s
  hasType_extension : ∀ key s, types.extension_type key = some s → ∀ v, HasType (property v key) s
  /-- The hierarchy of a sealed type is finite. -/
  wellFounded_subtypes : WellFounded fun s t => types.is_sealed t = true ∧ ∃ keys, s ∈ types.get_subtypes keys t

section
variable {types : StaticTypes T K} (U : Universe types)

mutual

/-- A value matches a single space when it has the type and its properties match. -/
def SingleSpace.Matches (v : U.Value) : SingleSpace T K → Prop
  | .mk type properties additional_properties =>
    U.HasType v type ∧ PropertiesMatch (U.property v) properties ∧
      PropertiesMatch (U.additional_property v) additional_properties

def Space.Matches (v : U.Value) : Space T K → Prop
  | .mk _ _ single_spaces => SomeMatches v single_spaces

def SomeMatches (v : U.Value) : List (SingleSpace T K) → Prop
  | [] => False
  | single :: single_spaces => single.Matches v ∨ SomeMatches v single_spaces

def PropertiesMatch (property : K → U.Value) : List (K × Space T K) → Prop
  | [] => True
  | (key, space) :: properties => space.Matches (property key) ∧ PropertiesMatch property properties

end

variable {U} {v : U.Value} {space : Space T K}

lemma someMatches_iff {single_spaces : List (SingleSpace T K)} :
    SomeMatches U v single_spaces ↔ ∃ s ∈ single_spaces, s.Matches U v := by
  induction single_spaces with
  | nil => simp [SomeMatches]
  | cons s single_spaces ih => simp [SomeMatches, ih]

lemma propertiesMatch_iff {property : K → U.Value} {properties : List (K × Space T K)} :
    PropertiesMatch U property properties ↔ ∀ p ∈ properties, p.2.Matches U (property p.1) := by
  induction properties with
  | nil => simp [PropertiesMatch]
  | cons p properties ih =>
    rw [List.forall_mem_cons]
    exact and_congr_right fun _ => ih

lemma Space.matches_iff : space.Matches U v ↔ ∃ s ∈ space.single_spaces, s.Matches U v := by
  cases space
  exact someMatches_iff

lemma SingleSpace.matches_iff {s : SingleSpace T K} : s.Matches U v ↔ U.HasType v s.type ∧
    (∀ p ∈ s.properties, p.2.Matches U (U.property v p.1)) ∧
      ∀ p ∈ s.additional_properties, p.2.Matches U (U.additional_property v p.1) := by
  cases s
  rw [Matches, propertiesMatch_iff, propertiesMatch_iff]
  rfl

lemma Space.of_type_matches (object : Nat) (path : List K) (type : T) :
    (Space.of_type object path type).Matches U v ↔ U.HasType v type := by
  simp [of_type, Space.Matches, SomeMatches, SingleSpace.Matches, PropertiesMatch]

variable [DecidableEq T] [DecidableEq K] (types : StaticTypes T K)

/-- `operator ==` of `SingleSpace`. The class `Space` has no such operator, so that its objects are
compared. -/
def SingleSpace.equals (s other : SingleSpace T K) : Bool :=
  s.type = other.type && s.properties.length = other.properties.length &&
    s.properties.all fun entry => (other.properties.lookup entry.1).map Space.object = some entry.2.object

/-- `SingleSpace.empty`. -/
def SingleSpace.empty : SingleSpace T K := .mk types.never_type [] []

/-- Adds to a set, in which equal elements are not distinguished. -/
def add_to_set (set : List (SingleSpace T K)) (s : SingleSpace T K) : List (SingleSpace T K) :=
  if set.any fun t => t.equals s then set else set ++ [s]

/-- The set of the single spaces that are not empty. -/
def collect (single_spaces : List (SingleSpace T K)) : List (SingleSpace T K) :=
  single_spaces.foldl (fun set s => if s.equals (SingleSpace.empty types) then set else add_to_set set s) []

/-- Whether the two elements of a set are `null` and a space without properties. -/
def is_null_and_type (s t : SingleSpace T K) : Bool :=
  s.type = types.null_type && s.properties.isEmpty && t.properties.isEmpty

/-- The single spaces of `Space.fromSingleSpaces`. -/
def merge_null : List (SingleSpace T K) → List (SingleSpace T K)
  | [] => [SingleSpace.empty types]
  | [s, t] =>
    if is_null_and_type types s t then [.mk (types.nullable t.type) [] []]
    else if is_null_and_type types t s then [.mk (types.nullable s.type) [] []]
    else [s, t]
  | set => set

/-- `Space.fromSingleSpaces`. -/
def Space.from_single_spaces (object : Nat) (path : List K) (single_spaces : List (SingleSpace T K)) : Space T K :=
  .mk object path (merge_null types (collect types single_spaces))

def Space.union (object : Nat) (s other : Space T K) : Space T K :=
  from_single_spaces types object s.path (s.single_spaces ++ other.single_spaces)

end

section
variable [DecidableEq T] [DecidableEq K] {types : StaticTypes T K} {s t : SingleSpace T K}

lemma SingleSpace.equals_iff : s.equals t = true ↔ s.type = t.type ∧ s.properties.length = t.properties.length ∧
      ∀ p ∈ s.properties, (t.properties.lookup p.1).map Space.object = some p.2.object := by
  simp [equals, and_assoc]

omit [DecidableEq T] in
lemma mem_of_lookup {l : List (K × Space T K)} {key : K} (h : l.lookup key = some space) : (key, space) ∈ l := by
  induction l with
  | nil => simp at h
  | cons p l ih =>
    rw [List.lookup_cons] at h
    by_cases hkey : key = p.1
    · simp only [hkey, beq_self_eq_true, Option.some.injEq] at h
      exact List.mem_cons.mpr (.inl (Prod.ext hkey h.symm))
    · simp only [beq_eq_false_iff_ne.mpr hkey] at h
      exact List.mem_cons_of_mem _ (ih h)

lemma SingleSpace.equals_trans {r s t : SingleSpace T K} (h : r.equals s = true) (h' : s.equals t = true) :
    r.equals t = true := by
  rw [equals_iff] at h h' ⊢
  obtain ⟨hty, hlen, hents⟩ := h
  obtain ⟨hty', hlen', hents'⟩ := h'
  refine ⟨hty.trans hty', hlen.trans hlen', fun p hp => ?_⟩
  obtain ⟨space, hlook, hobj⟩ := Option.map_eq_some_iff.mp (hents p hp)
  rw [hents' (p.1, space) (mem_of_lookup hlook), hobj]

/-- A space that is equal to an empty one is empty. -/
lemma SingleSpace.equals_empty (h : s.equals t = true) (hs : s.equals (empty types) = true) :
    t.equals (empty types) = true := by
  rw [equals_iff] at h hs ⊢
  have hlen : t.properties.length = 0 := h.2.1.symm.trans hs.2.1
  refine ⟨h.1.symm.trans hs.1, hlen, fun p hp => ?_⟩
  rw [List.length_eq_zero_iff.mp hlen] at hp
  exact absurd hp List.not_mem_nil

lemma collect_concat (single_spaces : List (SingleSpace T K)) (s : SingleSpace T K) :
    collect types (single_spaces ++ [s]) = if s.equals (SingleSpace.empty types) then collect types single_spaces
      else add_to_set (collect types single_spaces) s := by
  rw [collect, List.foldl_append]
  rfl

lemma mem_add_to_set {set : List (SingleSpace T K)} :
    t ∈ add_to_set set s ↔ t ∈ set ∨ t = s ∧ ∀ u ∈ set, u.equals s = false := by
  rw [add_to_set]
  split_ifs with h
  · obtain ⟨u, hu, heq⟩ := List.any_eq_true.mp h
    refine ⟨.inl, fun ht => ht.elim id fun ht => ?_⟩
    exact absurd (heq.symm.trans (ht.2 u hu)) (by decide)
  · have hall : ∀ u ∈ set, u.equals s = false := by simpa using h
    simp [and_iff_left hall]

variable {single_spaces : List (SingleSpace T K)} {s : SingleSpace T K}

/-- A space that is not empty is in the set, or one that is equal to it. -/
lemma exists_mem_collect (hs : s ∈ single_spaces)
    (hempty : s.equals (SingleSpace.empty types) = false) : s ∈ collect types single_spaces ∨
      ∃ t ∈ collect types single_spaces, t.equals s = true := by
  induction single_spaces using List.reverseRecOn with
  | nil => exact absurd hs List.not_mem_nil
  | append_singleton rest x ih =>
    have hkeeps : ∀ t ∈ collect types rest, t ∈ collect types (rest ++ [x]) := fun t ht => by
      rw [collect_concat]
      split_ifs
      · exact ht
      · exact mem_add_to_set.mpr (.inl ht)
    obtain hs | hs := List.mem_append.mp hs
    · exact (ih hs).imp (hkeeps s) fun ⟨t, ht, heq⟩ => ⟨t, hkeeps t ht, heq⟩
    obtain rfl := List.mem_singleton.mp hs
    by_cases hnew : ∀ u ∈ collect types rest, u.equals s = false
    · rw [collect_concat, hempty]
      exact .inl (mem_add_to_set.mpr (.inr ⟨rfl, hnew⟩))
    push Not at hnew
    obtain ⟨u, hu, heq⟩ := hnew
    exact .inr ⟨u, hkeeps u hu, Bool.not_eq_false _ |>.mp heq⟩

/-- The elements of the set are those that are not empty and not equal to one before them. -/
lemma mem_collect_iff : s ∈ collect types single_spaces ↔ s.equals (SingleSpace.empty types) = false ∧
      ∃ before after, single_spaces = before ++ s :: after ∧ ∀ t ∈ before, t.equals s = false := by
  induction single_spaces using List.reverseRecOn generalizing s with
  | nil => simp [collect]
  | append_singleton rest x ih =>
    rw [collect_concat]
    constructor
    · intro hs
      have hcases : s ∈ collect types rest ∨ s = x ∧ x.equals (SingleSpace.empty types) = false ∧
          ∀ u ∈ collect types rest, u.equals x = false := by
        split_ifs at hs with hempty
        · exact .inl hs
        · exact (mem_add_to_set.mp hs).imp_right fun h => ⟨h.1, Bool.not_eq_true _ |>.mp hempty, h.2⟩
      obtain hs | ⟨rfl, hempty, hnew⟩ := hcases
      · obtain ⟨hempty, before, after, hsplit, hbefore⟩ := ih.mp hs
        exact ⟨hempty, before, after ++ [x], by rw [hsplit, List.append_assoc, List.cons_append], hbefore⟩
      refine ⟨hempty, rest, [], rfl, fun t ht => Bool.not_eq_true _ |>.mp fun heq => ?_⟩
      -- One that is equal to `t` is in the set.
      have htempty : t.equals (SingleSpace.empty types) = false := Bool.not_eq_true _ |>.mp fun h =>
        Bool.false_ne_true (hempty.symm.trans (SingleSpace.equals_empty heq h))
      obtain hmem | ⟨u, hu, hut⟩ := exists_mem_collect ht htempty
      · exact Bool.false_ne_true ((hnew t hmem).symm.trans heq)
      · exact Bool.false_ne_true ((hnew u hu).symm.trans (SingleSpace.equals_trans hut heq))
    · rintro ⟨hempty, before, after, hsplit, hbefore⟩
      obtain rfl | ⟨after, y, rfl⟩ := List.eq_nil_or_concat' after
      · obtain ⟨rfl, hlast⟩ := List.append_inj' hsplit rfl
        obtain rfl := List.singleton_injective hlast
        rw [hempty, if_neg Bool.false_ne_true, mem_add_to_set]
        refine .inr ⟨rfl, fun u hu => hbefore u ?_⟩
        obtain ⟨-, before', after', hsplit', -⟩ := ih.mp hu
        rw [hsplit']
        exact List.mem_append_right _ List.mem_cons_self
      rw [← List.cons_append, ← List.append_assoc] at hsplit
      obtain ⟨hrest, -⟩ := List.append_inj' hsplit rfl
      have hmem : s ∈ collect types rest := ih.mpr ⟨hempty, before, after, hrest, hbefore⟩
      split_ifs
      · exact hmem
      · exact mem_add_to_set.mpr (.inl hmem)

/-- No element of the set is equal to one before it. -/
lemma pairwise_collect (single_spaces : List (SingleSpace T K)) :
    (collect types single_spaces).Pairwise fun s t => s.equals t = false := by
  induction single_spaces using List.reverseRecOn with
  | nil => exact .nil
  | append_singleton rest x ih =>
    rw [collect_concat]
    split_ifs with hempty
    · exact ih
    · rw [add_to_set]
      split_ifs with hany
      · exact ih
      · refine List.pairwise_append.mpr ⟨ih, List.pairwise_singleton _ _, fun u hu t ht => ?_⟩
        rw [List.mem_singleton.mp ht]
        have hall : ∀ u ∈ collect types rest, u.equals x = false := by simpa using hany
        exact hall u hu

lemma mem_of_mem_collect (h : s ∈ collect types single_spaces) : s ∈ single_spaces := by
  obtain ⟨-, before, after, hsplit, -⟩ := mem_collect_iff.mp h
  rw [hsplit]
  exact List.mem_append_right _ List.mem_cons_self

end

section
variable [DecidableEq T] [DecidableEq K] {types : StaticTypes T K} (U : Universe types)

/-- The single spaces are `null` and another type, and some that are equal to these. -/
def MergesNull (types : StaticTypes T K) (single_spaces : List (SingleSpace T K)) (n s : SingleSpace T K) : Prop :=
  n ∈ single_spaces ∧ s ∈ single_spaces ∧ n.type = types.null_type ∧ n.properties = [] ∧ s.properties = [] ∧
    n.type ≠ s.type ∧ n.type ≠ types.never_type ∧ s.type ≠ types.never_type ∧
    ∀ t ∈ single_spaces, t.equals (SingleSpace.empty types) = true ∨ n.equals t = true ∨ s.equals t = true

section
variable (single_spaces : List (SingleSpace T K))

/-- Only single spaces that are equal to one before them match. -/
def OnlyDuplicatesMatch (v : U.Value) : Prop :=
  (∃ s ∈ single_spaces, s.Matches U v) ∧
    ∀ before s after, single_spaces = before ++ s :: after → s.Matches U v → ∃ t ∈ before, t.equals s = true

/-- The value is lost because additional properties do not take part in the comparison, or it is
added because they are dropped. -/
def UnionFails (v : U.Value) : Prop :=
  (OnlyDuplicatesMatch U single_spaces v ∧ ¬∃ n s, MergesNull types single_spaces n s) ∨
    ∃ n s, MergesNull types single_spaces n s ∧ (U.HasType v s.type ∨ U.HasType v types.null_type) ∧
      ∀ t ∈ single_spaces, ¬t.Matches U v

end

variable {U} {single_spaces : List (SingleSpace T K)} {n s : SingleSpace T K} {v : U.Value} {t : SingleSpace T K}

open SingleSpace

lemma SingleSpace.equals_of_no_properties (hty : s.type = t.type) (hs : s.properties = [])
    (ht : t.properties = []) : s.equals t = true := by
  rw [equals_iff, hs, ht]
  exact ⟨hty, rfl, by simp⟩

lemma SingleSpace.properties_eq_nil (h : s.equals t = true) (hs : s.properties = []) : t.properties = [] := by
  rw [equals_iff, hs] at h
  exact List.length_eq_zero_iff.mp h.2.1.symm

lemma SingleSpace.not_equals_empty (h : s.type ≠ types.never_type) : s.equals (empty types) = false :=
  Bool.not_eq_true _ |>.mp fun heq => h (equals_iff.mp heq).1

lemma SingleSpace.not_matches_of_equals_empty (h : s.equals (empty types) = true) : ¬s.Matches U v := by
  intro hmatch
  have hty : s.type = types.never_type := (equals_iff.mp h).1
  exact U.not_hasType_never v (hty ▸ (matches_iff.mp hmatch).1)

/-- Two elements remain, and they are replaced by the nullable type. -/
lemma MergesNull.merge_null_eq (h : MergesNull types single_spaces n s) :
    merge_null types (collect types single_spaces) = [.mk (types.nullable s.type) [] []] := by
  obtain ⟨hn, hs, hnull, hnprops, hsprops, hne, hnever, hsnever, hall⟩ := h
  have hkind : ∀ u ∈ collect types single_spaces, (u.type = n.type ∨ u.type = s.type) ∧ u.properties = [] := fun u hu => by
    obtain hempty | heq | heq := hall u (mem_of_mem_collect hu)
    · exact absurd (hempty.symm.trans (mem_collect_iff.mp hu).1) (by decide)
    · exact ⟨.inl (equals_iff.mp heq).1.symm, properties_eq_nil heq hnprops⟩
    · exact ⟨.inr (equals_iff.mp heq).1.symm, properties_eq_nil heq hsprops⟩
  have hex {x : SingleSpace T K} (hx : x ∈ single_spaces) (hxnever : x.type ≠ types.never_type) :
      ∃ u ∈ collect types single_spaces, u.type = x.type := by
    obtain hmem | ⟨u, hu, heq⟩ := exists_mem_collect hx (not_equals_empty hxnever)
    · exact ⟨x, hmem, rfl⟩
    · exact ⟨u, hu, (equals_iff.mp heq).1⟩
  obtain ⟨un, hun, hunType⟩ := hex hn hnever
  obtain ⟨us, hus, husType⟩ := hex hs hsnever
  have hdist : (collect types single_spaces).Pairwise fun u w => u.type ≠ w.type :=
    (pairwise_collect single_spaces).imp_of_mem fun {u w} hu hw hneq hty => by
      rw [equals_of_no_properties hty (hkind u hu).2 (hkind w hw).2] at hneq
      exact absurd hneq (by decide)
  generalize collect types single_spaces = set at *
  match set with
  | [] => exact absurd hun List.not_mem_nil
  | [a] =>
    rw [List.mem_singleton] at hun hus
    exact absurd (hunType.symm.trans ((hun.trans hus.symm) ▸ husType)) hne
  | [a, b] =>
    obtain ⟨ha, haprops⟩ := hkind a (by simp)
    obtain ⟨hb, hbprops⟩ := hkind b (by simp)
    have hab : a.type ≠ b.type := (List.pairwise_cons.mp hdist).1 b (by simp)
    obtain ha | ha := ha
    · have hb : b.type = s.type := hb.resolve_left fun hb => hab (ha.trans hb.symm)
      simp [merge_null, is_null_and_type, ha, hb, hnull, haprops, hbprops]
    have hb : b.type = n.type := hb.resolve_right fun hb => hab (ha.trans hb.symm)
    have hsnull : s.type ≠ types.null_type := fun h => hne (hnull.trans h.symm)
    simp [merge_null, is_null_and_type, hsnull, ha, hb, hnull, haprops, hbprops]
  | a :: b :: c :: rest =>
    -- There are only two types.
    obtain ⟨habc, hbc, -⟩ := (List.pairwise_cons.mp hdist).imp_right List.pairwise_cons.mp
    obtain ha | ha := (hkind a (by simp)).1 <;> obtain hb | hb := (hkind b (by simp)).1 <;>
      obtain hc | hc := (hkind c (by simp)).1 <;> simp_all

lemma mergesNull_of_mem_collect {a b : SingleSpace T K} (hset : ∀ t, t ∈ collect types single_spaces ↔ t = a ∨ t = b)
    (hne : a.equals b = false ∨ b.equals a = false) (h : is_null_and_type types a b = true) :
    MergesNull types single_spaces a b := by
  have ha : a ∈ collect types single_spaces := (hset a).mpr (.inl rfl)
  have hb : b ∈ collect types single_spaces := (hset b).mpr (.inr rfl)
  simp only [is_null_and_type, Bool.and_eq_true, decide_eq_true_eq, List.isEmpty_iff] at h
  obtain ⟨⟨hnull, haprops⟩, hbprops⟩ := h
  have hnever {x : SingleSpace T K} (hx : x ∈ collect types single_spaces) (hprops : x.properties = []) :
      x.type ≠ types.never_type := fun hty => by
    have hempty : x.equals (empty types) = true := equals_of_no_properties hty hprops rfl
    exact Bool.false_ne_true ((mem_collect_iff.mp hx).1.symm.trans hempty)
  refine ⟨mem_of_mem_collect ha, mem_of_mem_collect hb, hnull, haprops, hbprops, fun hty => ?_, hnever ha haprops,
    hnever hb hbprops, fun t ht => ?_⟩
  · have heq : a.equals b = true := equals_of_no_properties hty haprops hbprops
    have heq' : b.equals a = true := equals_of_no_properties hty.symm hbprops haprops
    obtain hne | hne := hne
    · exact Bool.false_ne_true (hne.symm.trans heq)
    · exact Bool.false_ne_true (hne.symm.trans heq')
  · cases hempty : t.equals (empty types) with
    | true => exact .inl rfl
    | false =>
      have hself {x : SingleSpace T K} (hprops : x.properties = []) : x.equals x = true :=
        equals_of_no_properties rfl hprops hprops
      obtain hmem | ⟨u, hu, heq⟩ := exists_mem_collect ht hempty
      · obtain rfl | rfl := (hset t).mp hmem
        · exact .inr (.inl (hself haprops))
        · exact .inr (.inr (hself hbprops))
      obtain rfl | rfl := (hset u).mp hu
      · exact .inr (.inl heq)
      · exact .inr (.inr heq)

/-- The set stays as it is. -/
lemma merge_null_matches (h : ¬∃ n s, MergesNull types single_spaces n s) :
    (∃ t ∈ merge_null types (collect types single_spaces), t.Matches U v) ↔
      ∃ t ∈ collect types single_spaces, t.Matches U v := by
  have hpairwise : (collect types single_spaces).Pairwise fun s t => s.equals t = false := pairwise_collect single_spaces
  match hset : collect types single_spaces with
  | [] =>
    have hempty : ¬(empty types).Matches U v := not_matches_of_equals_empty (equals_of_no_properties rfl rfl rfl)
    simp [merge_null, hempty]
  | [a] => rfl
  | [a, b] =>
    rw [hset] at hpairwise
    have hne : a.equals b = false := (List.pairwise_cons.mp hpairwise).1 b (by simp)
    have hab : ¬is_null_and_type types a b = true := fun hnull =>
      h ⟨a, b, mergesNull_of_mem_collect (fun t => by rw [hset]; simp) (.inl hne) hnull⟩
    have hba : ¬is_null_and_type types b a = true := fun hnull =>
      h ⟨b, a, mergesNull_of_mem_collect (fun t => by rw [hset]; simp [or_comm]) (.inr hne) hnull⟩
    rw [merge_null, if_neg hab, if_neg hba]
  | a :: b :: c :: rest => rfl

lemma not_exists_mem_collect_matches_iff : ((∃ t ∈ collect types single_spaces, t.Matches U v) ↔
    ∃ t ∈ single_spaces, t.Matches U v) ↔ ¬OnlyDuplicatesMatch U single_spaces v := by
  have hsub : (∃ t ∈ collect types single_spaces, t.Matches U v) → ∃ t ∈ single_spaces, t.Matches U v :=
    fun ⟨t, ht, hmatch⟩ => ⟨t, mem_of_mem_collect ht, hmatch⟩
  constructor
  · rintro hiff ⟨hex, hbefore⟩
    obtain ⟨t, ht, hmatch⟩ := hiff.mpr hex
    obtain ⟨-, before, after, hsplit, hfst⟩ := mem_collect_iff.mp ht
    obtain ⟨u, hu, heq⟩ := hbefore before t after hsplit hmatch
    exact Bool.false_ne_true ((hfst u hu).symm.trans heq)
  · refine fun hnot => ⟨hsub, fun hex => ?_⟩
    by_contra hnone
    refine hnot ⟨hex, fun before s after hsplit hmatch => ?_⟩
    by_contra hfst
    push Not at hfst
    have hempty : s.equals (empty types) = false :=
      Bool.not_eq_true _ |>.mp fun h => not_matches_of_equals_empty h hmatch
    exact hnone ⟨s, mem_collect_iff.mpr ⟨hempty, before, after, hsplit, fun t ht => by simpa using hfst t ht⟩, hmatch⟩

/-- What is left of `null` and a type matches all values that some single space matches. -/
lemma MergesNull.hasType_nullable (h : MergesNull types single_spaces n s) (hmatch : ∃ t ∈ single_spaces, t.Matches U v) :
    U.HasType v (types.nullable s.type) := by
  obtain ⟨t, ht, hmatch⟩ := hmatch
  obtain ⟨-, -, hnull, -, -, -, -, -, hall⟩ := h
  have hty := (matches_iff.mp hmatch).1
  rw [U.hasType_nullable]
  obtain hempty | heq | heq := hall t ht
  · exact absurd hmatch (not_matches_of_equals_empty hempty)
  · rw [← (equals_iff.mp heq).1, hnull] at hty
    exact .inr hty
  · rw [← (equals_iff.mp heq).1] at hty
    exact .inl hty

lemma MergesNull.unionFails_iff (h : MergesNull types single_spaces n s) : UnionFails U single_spaces v ↔
      U.HasType v (types.nullable s.type) ∧ ¬∃ t ∈ single_spaces, t.Matches U v := by
  constructor
  · rintro (⟨-, hnot⟩ | ⟨n', s', h', hty, hnone⟩)
    · exact absurd ⟨n, s, h⟩ hnot
    · rw [← U.hasType_nullable] at hty
      have hsame := h'.merge_null_eq.symm.trans h.merge_null_eq
      have hnull : types.nullable s'.type = types.nullable s.type := by injections
      exact ⟨hnull ▸ hty, fun ⟨t, ht, hmatch⟩ => hnone t ht hmatch⟩
  · rintro ⟨hty, hnone⟩
    exact .inr ⟨n, s, h, (U.hasType_nullable v s.type).mp hty, fun t ht hmatch => hnone ⟨t, ht, hmatch⟩⟩

lemma union_matches_iff (object : Nat) (a b : Space T K) (v : U.Value) :
    ((a.union types object b).Matches U v ↔ a.Matches U v ∨ b.Matches U v) ↔
      ¬UnionFails U (a.single_spaces ++ b.single_spaces) v := by
  have hunion : (a.union types object b).Matches U v ↔
      ∃ t ∈ merge_null types (collect types (a.single_spaces ++ b.single_spaces)), t.Matches U v := Space.matches_iff
  have hor : a.Matches U v ∨ b.Matches U v ↔ ∃ t ∈ a.single_spaces ++ b.single_spaces, t.Matches U v := by
    rw [Space.matches_iff, Space.matches_iff]
    simp [or_and_right, exists_or]
  rw [hunion, hor]
  generalize a.single_spaces ++ b.single_spaces = single_spaces
  by_cases hmerges : ∃ n s, MergesNull types single_spaces n s
  · obtain ⟨n, s, h⟩ := id hmerges
    have hres : (∃ t ∈ merge_null types (collect types single_spaces), t.Matches U v) ↔
        U.HasType v (types.nullable s.type) := by
      rw [h.merge_null_eq]
      simp [SingleSpace.Matches, PropertiesMatch]
    rw [hres, h.unionFails_iff, not_and, not_not]
    exact ⟨fun hiff => hiff.mp, fun himp => ⟨himp, h.hasType_nullable⟩⟩
  · rw [merge_null_matches hmerges, not_exists_mem_collect_matches_iff, UnionFails, not_or, not_and, not_not]
    refine ⟨fun h => ⟨fun hd => absurd hd h, ?_⟩, fun h hd => hmerges (h.1 hd)⟩
    rintro ⟨n, s, hn, -⟩
    exact hmerges ⟨n, s, hn⟩

/-- Spaces with the same identity are the same object. -/
def Consistent (single_spaces : List (SingleSpace T K)) : Prop :=
  ∀ s ∈ single_spaces, ∀ t ∈ single_spaces, ∀ p ∈ s.properties, ∀ q ∈ t.properties,
    p.2.object = q.2.object → p.2 = q.2

/-- A space is matched when one that it is equal to is. -/
lemma SingleSpace.matches_of_equals (hcons : Consistent single_spaces)
    (ht : t ∈ single_spaces) (hs : s ∈ single_spaces) (hadd : t.additional_properties = []) (heq : t.equals s = true)
    (hmatch : s.Matches U v) : t.Matches U v := by
  obtain ⟨hty, -, hents⟩ := equals_iff.mp heq
  obtain ⟨hstype, hsprops, -⟩ := matches_iff.mp hmatch
  refine matches_iff.mpr ⟨hty ▸ hstype, fun p hp => ?_, by simp [hadd]⟩
  obtain ⟨space, hlook, hobj⟩ := Option.map_eq_some_iff.mp (hents p hp)
  have hmem := mem_of_lookup hlook
  rw [hcons t ht s hs p hp (p.1, space) hmem hobj.symm]
  exact hsprops (p.1, space) hmem

/-- Nothing gets lost without additional properties. -/
lemma not_unionFails_of_no_additional_properties (hcons : Consistent single_spaces)
    (hadd : ∀ s ∈ single_spaces, s.additional_properties = []) : ¬UnionFails U single_spaces v := by
  rintro (⟨hduplicates, -⟩ | ⟨n, s, ⟨hn, hs, hnull, hnprops, hsprops, -⟩, hty, hnone⟩)
  · refine not_exists_mem_collect_matches_iff.mp ⟨fun ⟨t, ht, hmatch⟩ => ⟨t, mem_of_mem_collect ht, hmatch⟩, ?_⟩ hduplicates
    rintro ⟨s, hs, hmatch⟩
    have hempty : s.equals (empty types) = false :=
      Bool.not_eq_true _ |>.mp fun h => not_matches_of_equals_empty h hmatch
    obtain hmem | ⟨t, ht, heq⟩ := exists_mem_collect hs hempty
    · exact ⟨s, hmem, hmatch⟩
    · have ht' := mem_of_mem_collect ht
      exact ⟨t, ht, matches_of_equals hcons ht' hs (hadd t ht') heq hmatch⟩
  · obtain hty | hty := hty
    · exact hnone s hs (matches_iff.mpr ⟨hty, by simp [hsprops], by simp [hadd s hs]⟩)
    · rw [← hnull] at hty
      exact hnone n hn (matches_iff.mpr ⟨hty, by simp [hnprops], by simp [hadd n hn]⟩)

/-- An or-pattern matches what its operands match, unless additional properties get lost. -/
theorem union_correct_iff : (∀ (object : Nat) (a b : Space T K) (v : U.Value),
      ((a.union types object b).Matches U v ↔ a.Matches U v ∨ b.Matches U v) ↔
        ¬UnionFails U (a.single_spaces ++ b.single_spaces) v) ∧
    ∀ (object : Nat) (a b : Space T K) (v : U.Value), Consistent (a.single_spaces ++ b.single_spaces) →
      (∀ s ∈ a.single_spaces ++ b.single_spaces, s.additional_properties = []) →
      ((a.union types object b).Matches U v ↔ a.Matches U v ∨ b.Matches U v) :=
  ⟨union_matches_iff, fun object a b v hconsistent hadditional =>
    (union_matches_iff object a b v).mpr (not_unionFails_of_no_additional_properties hconsistent hadditional)⟩

end

/-- The values `null`, `true`, `false`, `[true]` and `[false]`. -/
inductive Sample where
  | null
  | element (b : Bool)
  | list (b : Bool)

/-- The types `Never`, `Object`, `bool`, `true`, `false` and `List<bool>` of one element. -/
inductive SampleType where
  | never
  | object
  | bool
  | constant (b : Bool)
  | list
deriving DecidableEq

def SampleType.Contains : SampleType → Sample → Prop
  | object, .element _ => True
  | object, .list _ => True
  | bool, .element _ => True
  | constant b, .element c => b = c
  | list, .list _ => True
  | _, _ => False

/-- Types that may be nullable, with the sealed type `bool`. The only key is that of the element. -/
def sample_types : StaticTypes (SampleType × Bool) Unit where
  never_type := (.never, false)
  null_type := (.never, true)
  nullable_object := (.object, true)
  nullable t := (t.1, true)
  is_subtype_of s t := s = t
  is_sealed t := t = (.bool, false)
  get_subtypes _ _ := [(.constant true, false), (.constant false, false)]
  get_property_type _ _ := none
  get_additional_property_type t _ := if t = (.list, false) then some (.bool, false) else none
  extension_type _ := none
  key_le _ _ := true

abbrev sample_universe : Universe sample_types where
  Value := Sample
  HasType v t := (t.2 = true ∧ v = .null) ∨ t.1.Contains v
  property v _ := v
  additional_property v _ := match v with
    | .list b => .element b
    | v => v
  not_hasType_never v := by cases v <;> simp [sample_types, SampleType.Contains]
  hasType_nullable_object v := by cases v <;> simp [sample_types, SampleType.Contains]
  hasType_nullable v t := by cases v <;> simp [sample_types, SampleType.Contains]
  hasType_of_is_subtype_of s t h v hv := by
    have : s = t := by simpa [sample_types] using h
    exact this ▸ hv
  get_subtypes_covers _ t h v hv := by
    obtain rfl : t = (.bool, false) := of_decide_eq_true h
    rcases v with _ | ⟨_ | _⟩ | _ <;> simp [sample_types, SampleType.Contains] at hv ⊢
  hasType_property _ _ _ h := absurd h (by simp [sample_types])
  hasType_additional_property t _ s h v hv := by
    simp only [sample_types, Option.ite_none_right_eq_some, Option.some.injEq] at h
    obtain ⟨rfl, rfl⟩ := h
    cases v <;> simp [SampleType.Contains] at hv ⊢
  hasType_extension _ _ h := absurd h (by simp [sample_types])
  wellFounded_subtypes := ⟨fun _ => ⟨_, fun s h => ⟨_, fun _ h' => by
    obtain rfl : s = (.bool, false) := of_decide_eq_true h'.1
    simp [sample_types] at h⟩⟩⟩

/-- The pattern `true || false`. -/
theorem union_correct_iff_constants :
    let v : Sample := .element true
    let a : Space (SampleType × Bool) Unit := .of_type 0 [] (.constant true, false)
    let b : Space (SampleType × Bool) Unit := .of_type 1 [] (.constant false, false)
    Consistent (a.single_spaces ++ b.single_spaces) ∧
      (∀ s ∈ a.single_spaces ++ b.single_spaces, s.additional_properties = []) ∧
      ((a.union sample_types 2 b).Matches sample_universe v ↔ a.Matches sample_universe v ∨ b.Matches sample_universe v) := by
  intro v a b
  have hcons : Consistent (a.single_spaces ++ b.single_spaces) := by
    simp [Consistent, a, b, Space.of_type, Space.single_spaces, SingleSpace.properties]
  have hadd : ∀ s ∈ a.single_spaces ++ b.single_spaces, s.additional_properties = [] := by
    simp [a, b, Space.of_type, Space.single_spaces, SingleSpace.additional_properties]
  exact ⟨hcons, hadd, (union_correct_iff (U := sample_universe)).2 2 a b v hcons hadd⟩

/-- The pattern `[b]`. -/
def list_pattern (object : Nat) (b : Bool) : Space (SampleType × Bool) Unit :=
  .mk object [] [.mk (.list, false) [] [((), .of_type (object + 1) [()] (.constant b, false))]]

/-- `[true] || [false]` does not match `[false]`, and `null || [true]` does. -/
theorem union_loses_additional_properties :
    (¬((list_pattern 0 true).union sample_types 4 (list_pattern 2 false)).Matches sample_universe (.list false) ∧
      (list_pattern 2 false).Matches sample_universe (.list false)) ∧
    ((Space.of_type 0 [] sample_types.null_type).union sample_types 3 (list_pattern 1 true)).Matches sample_universe
        (.list false) ∧
      ¬(Space.of_type 0 [] sample_types.null_type : Space (SampleType × Bool) Unit).Matches sample_universe (.list false) ∧
      ¬(list_pattern 1 true).Matches sample_universe (.list false) := by
  have hpattern (object : Nat) (b : Bool) : (list_pattern object b).Matches sample_universe (.list false) ↔ b = false := by
    simp [list_pattern, Space.of_type, Space.Matches, SomeMatches, SingleSpace.Matches, PropertiesMatch, sample_universe,
      SampleType.Contains]
  refine ⟨⟨?_, (hpattern 2 false).mpr rfl⟩, ?_, ?_, fun h => absurd ((hpattern 1 true).mp h) (by decide)⟩
  · exact fun h => absurd ((hpattern 0 true).mp h) (by decide)
  · rw [Space.matches_iff]
    exact ⟨_, List.mem_singleton_self _, SingleSpace.matches_iff.mpr ⟨.inr trivial, by simp [SingleSpace.properties],
      by simp [SingleSpace.additional_properties]⟩⟩
  · rw [Space.of_type_matches]
    simp [sample_types, SampleType.Contains]

end dart.exhaustiveness
