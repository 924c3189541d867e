import Mathlib.Data.List.Sort

namespace dart.flow_analysis
open List

/-- The loop of `joinPromotedTypes`: what is left of the chains, whether types of them were skipped, and the result. -/
structure JoinState (T : Type) where
  chain1 : List T
  chain2 : List T
  skipped1 : Bool
  skipped2 : Bool
  result : Option (List T)

variable {T : Type} [PartialOrder T] {chain1 chain2 rest1 rest2 : List T} {type t : T}

/-- The promoted types of a variable, each a proper subtype of the previous one. -/
def Descending (chain : List T) : Prop := chain.Pairwise (· > ·)

/-- The types above a type in two chains are comparable. -/
def Unobstructed (chain1 chain2 : List T) (t : T) : Prop :=
  ∀ x ∈ chain1, ∀ y ∈ chain2, t ≤ x → t ≤ y → x ≤ y ∨ y ≤ x

lemma Descending.le_head (h : Descending (type :: rest1)) (ht : t ∈ type :: rest1) : t ≤ type := by
  obtain rfl | ht := mem_cons.mp ht
  · exact le_rfl
  · exact (rel_of_pairwise_cons h ht).le

lemma Unobstructed.mono (h : Unobstructed chain1 chain2 t) (h1 : rest1 ⊆ chain1) (h2 : rest2 ⊆ chain2) :
    Unobstructed rest1 rest2 t := fun x hx y hy => h x (h1 hx) y (h2 hy)

lemma Unobstructed.symm (h : Unobstructed chain1 chain2 t) : Unobstructed chain2 chain1 t :=
  fun x hx y hy htx hty => (h y hy x hx hty htx).symm

lemma Unobstructed.cons_left (h : Unobstructed rest1 chain2 t) (hle : ∀ y ∈ chain2, y ≤ type) :
    Unobstructed (type :: rest1) chain2 t := forall_mem_cons.mpr ⟨fun y hy _ _ => .inr (hle y hy), h⟩

lemma Unobstructed.cons_right (h : Unobstructed chain1 rest2 t) (hle : ∀ x ∈ chain1, x ≤ type) :
    Unobstructed chain1 (type :: rest2) t := fun x hx => forall_mem_cons.mpr ⟨fun _ _ => .inl (hle x hx), h x hx⟩

variable [DecidableEq T]

lemma filter_mem_cons (hlt : ∀ t ∈ chain1, t < type) : chain1.filter (· ∈ type :: rest2) = chain1.filter (· ∈ rest2) :=
  filter_congr fun t ht => by simp [(hlt t ht).ne]

variable [DecidableLE T]

def join_promoted_types_loop (chain1 chain2 : List T) (skipped1 skipped2 : Bool) (result : Option (List T)) : JoinState T :=
  match chain1, chain2 with
  | type1 :: rest1, type2 :: rest2 =>
    if type1 = type2 then join_promoted_types_loop rest1 rest2 skipped1 skipped2 (some (result.getD [] ++ [type1]))
    else if type2 ≤ type1 then join_promoted_types_loop rest1 (type2 :: rest2) true skipped2 result
    else if type1 ≤ type2 then join_promoted_types_loop (type1 :: rest1) rest2 skipped1 true result
    else ⟨type1 :: rest1, type2 :: rest2, true, true, result⟩ -- the `break`
  | chain1, chain2 => ⟨chain1, chain2, skipped1, skipped2, result⟩
termination_by chain1.length + chain2.length

def join_promoted_types : Option (List T) → Option (List T) → Option (List T)
  | none, _ | _, none => none
  | some chain1, some chain2 =>
    let state := join_promoted_types_loop chain1 chain2 false false none
    if state.chain1.isEmpty && !state.skipped1 then some chain1
    else if state.chain2.isEmpty && !state.skipped2 then some chain2
    else state.result

/-- The common types are those that are added and those of the chains that are left, which are below incomparable types. -/
lemma join_promoted_types_loop_spec (h1 : Descending chain1) (h2 : Descending chain2) (skipped1 skipped2 : Bool)
    (result : Option (List T)) : let state := join_promoted_types_loop chain1 chain2 skipped1 skipped2 result
    ∃ added, state.result.getD [] = result.getD [] ++ added ∧
      chain1.filter (· ∈ chain2) = added ++ state.chain1.filter (· ∈ state.chain2) ∧
      (∀ t ∈ added, Unobstructed chain1 chain2 t) ∧
      (∀ t ∈ state.chain1, t ∈ state.chain2 → ¬Unobstructed chain1 chain2 t) ∧
      (state.skipped1 = false → skipped1 = false ∧ chain1 = added ++ state.chain1) ∧
      (state.skipped2 = false → skipped2 = false ∧ chain2 = added ++ state.chain2) := by
  fun_induction join_promoted_types_loop chain1 chain2 skipped1 skipped2 result with
  | case1 _ _ _ rest1 type rest2 ih =>
    obtain ⟨added, hres, hfilter, hclear, hleft, hl, hr⟩ := ih h1.of_cons h2.of_cons
    refine ⟨type :: added, by simp [hres], ?_, forall_mem_cons.mpr ⟨?_, fun t ht => ?_⟩, fun t ht1 ht2 h => ?_,
      fun hs => (hl hs).imp_right (congrArg _), fun hs => (hr hs).imp_right (congrArg _)⟩
    · rw [filter_cons_of_pos (by simp), filter_mem_cons fun t ht => rel_of_pairwise_cons h1 ht, hfilter, cons_append]
    · exact fun x _ y hy hle _ => .inr ((h2.le_head hy).trans hle)
    · exact ((hclear t ht).cons_right fun x hx => h1.le_head (.tail _ hx)).cons_left fun y hy => h2.le_head hy
    · exact hleft t ht1 ht2 (h.mono (subset_cons_self _ _) (subset_cons_self _ _))
  | case2 _ _ _ type1 rest1 type2 rest2 hne hle ih =>
    -- a type above the rest of the other chain is not in it, and obstructs nothing
    obtain ⟨added, hres, hfilter, hclear, hleft, hl, hr⟩ := ih h1.of_cons h2
    have hlt (y : T) (hy : y ∈ type2 :: rest2) : y < type1 := (h2.le_head hy).trans_lt (hle.lt_of_ne' hne)
    refine ⟨added, hres, ?_, fun t ht => (hclear t ht).cons_left fun y hy => (hlt y hy).le, fun t ht1 ht2 h => ?_,
      fun hs => absurd (hl hs).1 nofun, hr⟩
    · rw [filter_cons_of_neg (by simpa using fun hmem => (hlt type1 hmem).false), hfilter]
    · exact hleft t ht1 ht2 (h.mono (subset_cons_self _ _) (Subset.refl _))
  | case3 _ _ _ type1 rest1 type2 rest2 hne _ hle ih =>
    obtain ⟨added, hres, hfilter, hclear, hleft, hl, hr⟩ := ih h1 h2.of_cons
    have hlt (x : T) (hx : x ∈ type1 :: rest1) : x < type2 := (h1.le_head hx).trans_lt (hle.lt_of_ne hne)
    refine ⟨added, hres, ?_, fun t ht => (hclear t ht).cons_right fun x hx => (hlt x hx).le, fun t ht1 ht2 h => ?_,
      hl, fun hs => absurd (hr hs).1 nofun⟩
    · rw [filter_mem_cons hlt, hfilter]
    · exact hleft t ht1 ht2 (h.mono (Subset.refl _) (subset_cons_self _ _))
  | case4 _ _ _ type1 rest1 type2 rest2 _ hle hge =>
    refine ⟨[], (append_nil _).symm, rfl, by simp, fun t ht1 ht2 h => ?_, nofun, nofun⟩
    exact (h type1 (.head _) type2 (.head _) (h1.le_head ht1) (h2.le_head ht2)).elim hge hle
  | case5 _ _ _ chain1 chain2 hnil =>
    refine ⟨[], (append_nil _).symm, rfl, by simp, fun t ht1 ht2 => ?_, fun hs => ⟨hs, rfl⟩, fun hs => ⟨hs, rfl⟩⟩
    obtain ⟨type1, rest1, rfl⟩ := exists_cons_of_ne_nil (ne_nil_of_mem ht1)
    obtain ⟨type2, rest2, rfl⟩ := exists_cons_of_ne_nil (ne_nil_of_mem ht2)
    exact absurd rfl (hnil _ _ _ _ rfl)

/-- What `joinPromotedTypes` returns are the types that its loop adds. -/
lemma join_promoted_types_eq {added : List T} {state : JoinState T}
    (hstate : join_promoted_types_loop chain1 chain2 false false none = state) (hres : state.result.getD [] = added)
    (hl : state.skipped1 = false → chain1 = added ++ state.chain1)
    (hr : state.skipped2 = false → chain2 = added ++ state.chain2) :
    (join_promoted_types (some chain1) (some chain2)).getD [] = added := by
  simp only [join_promoted_types, hstate, Bool.and_eq_true, List.isEmpty_iff, Bool.not_eq_true']
  split_ifs with hfst hsnd
  · rw [hfst.1, append_nil] at hl
    exact hl hfst.2
  · rw [hsnd.1, append_nil] at hr
    exact hr hsnd.2
  · exact hres

/-- The promotion chain of a variable; it may be absent. -/
structure PromotionChain (T : Type) [PartialOrder T] where
  promoted_types : Option (List T)
  descending : Descending (promoted_types.getD [])

lemma join_promoted_types_spec (first second : PromotionChain T) :
    let types1 := first.promoted_types.getD []
    let types2 := second.promoted_types.getD []
    let types := (join_promoted_types first.promoted_types second.promoted_types).getD []
    Descending types ∧ ∀ t, t ∈ types ↔ t ∈ types1 ∧ t ∈ types2 ∧ Unobstructed types1 types2 t := by
  obtain ⟨chain1, h1⟩ := first
  obtain ⟨chain2, h2⟩ := second
  match chain1, chain2 with
  | none, _ | some _, none => simp [join_promoted_types, Descending]
  | some chain1, some chain2 =>
    rw [Option.getD_some] at h1 h2
    obtain ⟨added, hres, hfilter, hclear, hleft, hl, hr⟩ := join_promoted_types_loop_spec h1 h2 false false none
    have hadded := join_promoted_types_eq rfl hres (fun hs => (hl hs).2) fun hs => (hr hs).2
    simp only [Option.getD_some, hadded]
    refine ⟨h1.sublist ((sublist_append_left _ _).trans (hfilter ▸ filter_sublist)), fun t => ?_⟩
    have hmem : t ∈ chain1 ∧ t ∈ chain2 ↔ t ∈ added ∨ t ∈ (join_promoted_types_loop chain1 chain2 false false none).chain1 ∧
        t ∈ (join_promoted_types_loop chain1 chain2 false false none).chain2 := by
      simpa using iff_of_eq (congrArg (t ∈ ·) hfilter)
    rw [← and_assoc, hmem]
    constructor
    · intro ht
      exact ⟨.inl ht, hclear t ht⟩
    · rintro ⟨ht | ht, hun⟩
      · exact ht
      · exact absurd hun (hleft t ht.1 ht.2)

def PromotionChain.join (first second : PromotionChain T) : PromotionChain T :=
  ⟨join_promoted_types first.promoted_types second.promoted_types, (join_promoted_types_spec first second).1⟩

/-- The join of two chains is the chain of the common types above which all types are comparable, in either
order of the branches. -/
theorem PromotionChain.join_comm (first second : PromotionChain T) :
    let types1 := first.promoted_types.getD []
    let types2 := second.promoted_types.getD []
    (∀ t, t ∈ (first.join second).promoted_types.getD [] ↔ t ∈ types1 ∧ t ∈ types2 ∧ Unobstructed types1 types2 t) ∧
      (first.join second).promoted_types.getD [] = (second.join first).promoted_types.getD [] := by
  have hmem := (join_promoted_types_spec first second).2
  refine ⟨hmem, (first.join second).descending.eq_of_mem_iff (second.join first).descending fun t => ?_⟩
  rw [join, hmem, join, (join_promoted_types_spec second first).2]
  exact ⟨fun ⟨h1, h2, h⟩ => ⟨h2, h1, h.symm⟩, fun ⟨h2, h1, h⟩ => ⟨h1, h2, h.symm⟩⟩

/-- What is known about a variable at a point of the control flow. A variable that is captured by a write has no
node for its value. -/
structure PromotionModel (T Node : Type) [PartialOrder T] where
  chain : PromotionChain T
  tested : List T
  assigned : Bool
  unassigned : Bool
  ssa_node : Option Node

/-- The promoted types, none if the chain is absent. -/
def PromotionModel.types {Node : Type} (model : PromotionModel T Node) : List T := model.chain.promoted_types.getD []

/-- The longer list, and the types of the shorter one that it does not have. -/
def join_tested (types1 types2 : List T) : List T :=
  let (types1, types2) := if types1.length > types2.length then (types2, types1) else (types1, types2)
  let shared := ((types1.zip types2).takeWhile fun (type1, type2) => type1 = type2).length
  types2 ++ (types1.drop shared).filter (· ∉ types2)

variable {Node : Type} (join_nodes : Node → Node → Node)

def PromotionModel.join (first second : PromotionModel T Node) : PromotionModel T Node where
  chain := first.chain.join second.chain
  tested := if first.ssa_node.isNone || second.ssa_node.isNone then [] else join_tested first.tested second.tested
  assigned := first.assigned && second.assigned
  unassigned := first.unassigned && second.unassigned
  ssa_node := do return join_nodes (← first.ssa_node) (← second.ssa_node)

/-- Branches that are joined, two at a time. -/
inductive Merge (T Node : Type) [PartialOrder T] where
  | branch (model : PromotionModel T Node)
  | join (first second : Merge T Node)

namespace Merge

def branches : Merge T Node → List (PromotionModel T Node)
  | branch model => [model]
  | join first second => first.branches ++ second.branches

def result : Merge T Node → PromotionModel T Node
  | branch model => model
  | join first second => first.result.join join_nodes second.result

/-- No incomparable types stand above a common type of two branches. -/
def PairwiseUnobstructed (models : List (PromotionModel T Node)) : Prop :=
  ∀ first ∈ models, ∀ second ∈ models, ∀ t ∈ first.types, t ∈ second.types → Unobstructed first.types second.types t

omit [DecidableEq T] [DecidableLE T] in
lemma exists_branch (merge : Merge T Node) : ∃ model, model ∈ merge.branches := by
  induction merge with
  | branch model => exact ⟨model, mem_singleton_self model⟩
  | join first second ih _ => exact ih.imp fun model => mem_append_left _

/-- The types after the merge are those of all branches. -/
lemma mem_result_iff (merge : Merge T Node) (h : PairwiseUnobstructed merge.branches) (t : T) :
    t ∈ (merge.result join_nodes).types ↔ ∀ model ∈ merge.branches, t ∈ model.types := by
  induction merge generalizing t with
  | branch model => simp [result, branches]
  | join first second ih1 ih2 =>
    have ih1 := ih1 fun a ha b hb => h a (mem_append_left _ ha) b (mem_append_left _ hb)
    have ih2 := ih2 fun a ha b hb => h a (mem_append_right _ ha) b (mem_append_right _ hb)
    have hspec := (join_promoted_types_spec (first.result join_nodes).chain (second.result join_nodes).chain).2 t
    refine hspec.trans ?_
    rw [branches, forall_mem_append, ← ih1, ← ih2]
    refine ⟨fun ⟨h1, h2, _⟩ => ⟨h1, h2⟩, fun ⟨h1, h2⟩ => ⟨h1, h2, ?_⟩⟩
    -- the types of a result are types of any of its branches
    obtain ⟨a, ha⟩ := first.exists_branch
    obtain ⟨b, hb⟩ := second.exists_branch
    have hun := h a (mem_append_left _ ha) b (mem_append_right _ hb) t ((ih1 t).mp h1 a ha) ((ih2 t).mp h2 b hb)
    exact hun.mono (fun x hx => (ih1 x).mp hx a ha) fun y hy => (ih2 y).mp hy b hb

/-- Merges of some branches keep exactly the types that are common to the branches, in whatever order they are
joined, if and only if no two of the branches have incomparable types above a common one. -/
theorem result_types_iff (models : List (PromotionModel T Node)) :
    ((∀ merge : Merge T Node, merge.branches ⊆ models →
      ∀ t, t ∈ (merge.result join_nodes).types ↔ ∀ model ∈ merge.branches, t ∈ model.types) ↔
      PairwiseUnobstructed models) ∧
    ∀ merge merge' : Merge T Node, PairwiseUnobstructed merge.branches →
      (∀ model, model ∈ merge.branches ↔ model ∈ merge'.branches) →
      (merge.result join_nodes).types = (merge'.result join_nodes).types := by
  refine ⟨⟨fun h a ha b hb t hta htb => ?_, fun h merge hsub => ?_⟩, fun merge merge' h hsame => ?_⟩
  · have hjoin := h (.join (.branch a) (.branch b)) (by simp [branches, ha, hb]) t
    have hspec := (join_promoted_types_spec a.chain b.chain).2 t
    exact (hspec.mp (hjoin.mpr (by simp [branches, hta, htb]))).2.2
  · exact merge.mem_result_iff join_nodes fun a ha b hb => h a (hsub ha) b (hsub hb)
  · have h' : PairwiseUnobstructed merge'.branches := fun a ha b hb =>
      h a ((hsame a).mpr ha) b ((hsame b).mpr hb)
    refine (merge.result join_nodes).chain.descending.eq_of_mem_iff (merge'.result join_nodes).chain.descending fun t => ?_
    refine (merge.mem_result_iff join_nodes h t).trans (.trans ?_ (merge'.mem_result_iff join_nodes h' t).symm)
    exact forall_congr' fun model => by rw [hsame]

end Merge

/-- `(false, false)` stands in both chains, below two incomparable types. -/
theorem join_promoted_types_misses :
    let bottom : Bool × Bool := (false, false)
    let chain1 := some [(true, false), bottom]
    let chain2 := some [(false, true), bottom]
    Descending (chain1.getD []) ∧ Descending (chain2.getD []) ∧ join_promoted_types chain1 chain2 = none ∧
      join_promoted_types chain1 (join_promoted_types chain2 (some [bottom])) = some [bottom] := by
  intro bottom chain1 chain2
  have hle : ¬(true, false) ≤ (false, true) ∧ ¬(false, true) ≤ (true, false) := by decide
  refine ⟨by simp [chain1, bottom, Descending, Prod.lt_iff], by simp [chain2, bottom, Descending, Prod.lt_iff], ?_, ?_⟩
  · simp [join_promoted_types, join_promoted_types_loop, chain1, chain2, bottom, hle]
  · simp [join_promoted_types, join_promoted_types_loop, chain1, chain2, bottom]

end dart.flow_analysis
