import Mathlib.Data.List.Perm.Basic

namespace dart.list_set
open List Function
variable {α β : Type} {l : List α} {i : Nat} {old : α}

lemma eq_take_append_drop (h : l[i]? = some old) : l = l.take i ++ old :: l.drop (i + 1) := by
  obtain ⟨hi, hget⟩ := List.getElem?_eq_some_iff.mp h
  rw [← hget, getElem_cons_drop, take_append_drop]

/-- Replacing one element trades what it contributes to a `filterMap`. -/
lemma filterMap_set_perm (f : α → Option β) (h : l[i]? = some old) (new : α) :
    ((f old).toList ++ (l.set i new).filterMap f).Perm ((f new).toList ++ l.filterMap f) := by
  have hi : i < l.length := (List.getElem?_eq_some_iff.mp h).1
  have hcons (a : α) (rest : List α) : (a :: rest).filterMap f = (f a).toList ++ rest.filterMap f := by
    rw [filterMap_cons]
    cases f a <;> rfl
  rw [set_eq_take_append_cons_drop, if_pos hi]
  conv_rhs => rw [eq_take_append_drop h]
  rw [filterMap_append, filterMap_append, hcons, hcons]
  generalize (l.take i).filterMap f = before
  generalize (l.drop (i + 1)).filterMap f = after
  generalize (f old).toList = removed
  generalize (f new).toList = added
  calc (removed ++ (before ++ (added ++ after))).Perm (removed ++ (added ++ (before ++ after))) :=
        Perm.append_left removed (perm_append_comm_assoc ..)
    _ |>.Perm (added ++ (removed ++ (before ++ after))) := perm_append_comm_assoc ..
    _ |>.Perm (added ++ (before ++ (removed ++ after))) := Perm.append_left added (perm_append_comm_assoc ..)

lemma set_perm (h : l[i]? = some old) (new : α) : (old :: l.set i new).Perm (new :: l) := by
  have htrade := filterMap_set_perm some h new
  rwa [filterMap_some, filterMap_some] at htrade

lemma countP_set_add (p : α → Bool) (h : l[i]? = some old) (new : α) :
    (l.set i new).countP p + (if p old then 1 else 0) = l.countP p + (if p new then 1 else 0) := by
  have hi : i < l.length := (List.getElem?_eq_some_iff.mp h).1
  rw [set_eq_take_append_cons_drop, if_pos hi]
  conv_rhs => rw [eq_take_append_drop h]
  rw [countP_append, countP_append, countP_cons, countP_cons]
  omega

/-- Replacing what one index contributes to a `flatMap`. -/
lemma flatMap_update_perm [DecidableEq α] {indices : List α} (hnodup : indices.Nodup) {i : α} (hi : i ∈ indices)
    (f : α → List β) (l : List β) : (f i ++ indices.flatMap (update f i l)).Perm (l ++ indices.flatMap f) := by
  induction indices with
  | nil => cases hi
  | cons j rest ih =>
    rw [nodup_cons] at hnodup
    rw [flatMap_cons, flatMap_cons]
    by_cases hj : j = i
    · subst hj
      have hrest : rest.flatMap (update f j l) = rest.flatMap f := by
        refine flatMap_congr fun k hk => ?_
        have hne : k ≠ j := fun heq => hnodup.1 (heq ▸ hk)
        rw [update_of_ne hne]
      rw [update_self, hrest]
      exact perm_append_comm_assoc ..
    have hi' : i ∈ rest := (mem_cons.mp hi).resolve_left (Ne.symm hj)
    rw [update_of_ne hj]
    calc (f i ++ (f j ++ rest.flatMap (update f i l))).Perm
          (f j ++ (f i ++ rest.flatMap (update f i l))) := perm_append_comm_assoc ..
      _ |>.Perm (f j ++ (l ++ rest.flatMap f)) := Perm.append_left _ (ih hnodup.2 hi')
      _ |>.Perm (l ++ (f j ++ rest.flatMap f)) := perm_append_comm_assoc ..

end dart.list_set
