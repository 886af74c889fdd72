import Mathlib.Data.List.Perm.Subperm

/-!
This module contains lists whose elements carry the source they come from, and how many elements such a list has when it
is known what it has of each source.
-/

namespace TaggedLists

variable {ι α : Type} [DecidableEq ι] {xs ys : List (ι × α)} {i : ι} {a : α}

def ofSource (i : ι) (xs : List (ι × α)) : List α := (xs.filter (·.1 = i)).map Prod.snd

theorem ofSource_cons {x : ι × α} : ofSource i (x :: xs) = if x.1 = i then x.2 :: ofSource i xs else ofSource i xs := by
  rw [ofSource, List.filter_cons]
  by_cases h : x.1 = i
  . simp [h, ofSource]
  . simp [h, ofSource]

theorem ofSource_append : ofSource i (xs ++ ys) = ofSource i xs ++ ofSource i ys := by
  rw [ofSource, List.filter_append, List.map_append, ofSource, ofSource]

theorem count_ofSource [DecidableEq α] : (ofSource i xs).count a = xs.count (i, a) := by
  induction xs with
  | nil => rfl
  | cons x xs ih =>
    obtain ⟨j, b⟩ := x
    rw [ofSource_cons, List.count_cons, ← ih]
    by_cases hj : j = i
    . subst hj
      by_cases hb : b = a
      . simp [hb]
      . simp [hb]
    . simp [hj]

theorem subperm_of_forall (h : ∀ i, (ofSource i xs).Subperm (ofSource i ys)) : xs.Subperm ys := by
  classical
  rw [List.subperm_ext_iff]
  rintro ⟨i, a⟩ -
  rw [← count_ofSource, ← count_ofSource]
  exact (h i).count_le a

theorem ofSource_filterMap {β : Type} {f : ι → α → Option β}
    : ofSource i (xs.filterMap fun x => (f x.1 x.2).map (Prod.mk x.1)) = (ofSource i xs).filterMap (f i) := by
  induction xs with
  | nil => rfl
  | cons x xs ih =>
    rw [List.filterMap_cons, ofSource_cons]
    split_ifs with h
    . rw [List.filterMap_cons, ← ih, ← h]
      cases f x.1 x.2 with
      | none => rfl
      | some b => exact ofSource_cons.trans (if_pos rfl)
    . rw [← ih]
      cases f x.1 x.2 with
      | none => rfl
      | some b => exact ofSource_cons.trans (if_neg h)

theorem filter_ofSource {f : α → Bool} : ofSource i (xs.filter fun x => f x.2) = (ofSource i xs).filter f := by
  rw [ofSource, ofSource, List.filter_map, List.filter_filter, List.filter_filter]
  congr 2
  funext x
  exact Bool.and_comm ..

theorem countP_le {f : α → Bool} (h : ∀ i, (ofSource i xs).filter f <+: (ofSource i ys).filter f)
    : xs.countP (fun x => f x.2) ≤ ys.countP (fun x => f x.2) := by
  have hsub : (xs.filter fun x => f x.2).Subperm (ys.filter fun x => f x.2) := by
    apply subperm_of_forall
    intro i
    rw [filter_ofSource, filter_ofSource]
    exact (h i).sublist.subperm
  rw [List.countP_eq_length_filter, List.countP_eq_length_filter]
  exact hsub.length_le

theorem countP_eq {f : α → Bool} (h : ∀ i, (ofSource i xs).filter f = (ofSource i ys).filter f)
    : xs.countP (fun x => f x.2) = ys.countP (fun x => f x.2) := by
  apply Nat.le_antisymm
  . exact countP_le fun i => h i ▸ List.prefix_rfl
  . exact countP_le fun i => h i ▸ List.prefix_rfl

end TaggedLists
