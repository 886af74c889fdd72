import Mathlib.Data.List.Nodup
import Mathlib.Data.List.Perm.Basic

/-!
This module contains lists whose elements have distinct keys, as a table with a primary key has.
-/

namespace KeyedList

variable {α κ : Type} [DecidableEq κ] {key : α → κ} {xs ds : List α} {d x : α}

def upsert (key : α → κ) (xs : List α) (d : α) : List α :=
  if xs.any fun x => key x = key d then
    xs.map fun x => if key x = key d then d else x
  else
    xs ++ [d]

def remove (key : α → κ) (xs : List α) (d : α) : List α :=
  xs.filter fun x => key x ≠ key d

theorem mem_upsert : x ∈ upsert key xs d ↔ (x ∈ xs ∧ key x ≠ key d) ∨ x = d := by
  unfold upsert
  split
  . next hany =>
    obtain ⟨y, hy, hkey⟩ := List.any_eq_true.mp hany
    have hkey : key y = key d := by simpa using hkey
    rw [List.mem_map]
    constructor
    . rintro ⟨z, hz, rfl⟩
      split
      . exact .inr rfl
      . next hne => exact .inl ⟨hz, hne⟩
    . rintro (⟨hx, hne⟩ | rfl)
      . exact ⟨x, hx, if_neg hne⟩
      . exact ⟨y, hy, if_pos hkey⟩
  . next hany =>
    have hnone : ∀ y ∈ xs, key y ≠ key d := by simpa using hany
    rw [List.mem_append, List.mem_singleton]
    constructor
    . rintro (hx | rfl)
      . exact .inl ⟨hx, hnone x hx⟩
      . exact .inr rfl
    . rintro (⟨hx, -⟩ | rfl)
      . exact .inl hx
      . exact .inr rfl

theorem nodup_upsert (h : (xs.map key).Nodup) : ((upsert key xs d).map key).Nodup := by
  unfold upsert
  split
  . have hmap : (xs.map fun x => if key x = key d then d else x).map key = xs.map key := by
      rw [List.map_map]
      apply List.map_congr_left
      intro x _
      simp only [Function.comp_apply]
      split
      . next heq => exact heq.symm
      . rfl
    rw [hmap]
    exact h
  . next hany =>
    have hnone : ∀ y ∈ xs, key y ≠ key d := by simpa using hany
    rw [List.map_append, List.nodup_append]
    refine ⟨h, by simp, ?_⟩
    intro k hk k' hk'
    obtain ⟨y, hy, rfl⟩ := List.mem_map.mp hk
    obtain rfl : k' = key d := by simpa using hk'
    exact hnone y hy

theorem lookup_eq_some {β : Type} {xs : List (κ × β)} {k : κ} {v : β} (h : (xs.map Prod.fst).Nodup)
    : xs.lookup k = some v ↔ (k, v) ∈ xs := by
  rw [List.lookup_eq_some_iff]
  constructor
  . rintro ⟨before, after, rfl, -⟩
    simp
  . intro hmem
    obtain ⟨before, after, rfl⟩ := List.append_of_mem hmem
    refine ⟨before, after, rfl, fun x hx => ?_⟩
    rw [List.map_append, List.nodup_append] at h
    have hne := h.2.2 x.1 (List.mem_map_of_mem hx) k (by simp)
    simpa using hne.symm

theorem find?_key (h : (xs.map key).Nodup) (hx : x ∈ xs) : xs.find? (fun y => key y = key x) = some x := by
  obtain ⟨before, after, rfl⟩ := List.append_of_mem hx
  rw [List.map_append, List.nodup_append] at h
  have hnone : before.find? (fun y => key y = key x) = none := by
    rw [List.find?_eq_none]
    intro y hy
    have hne := h.2.2 (key y) (List.mem_map_of_mem hy) (key x) (by simp)
    simpa using hne
  rw [List.find?_append, hnone, List.find?_cons_of_pos (by simp), Option.none_or]

theorem mem_foldl_upsert (hds : (ds.map key).Nodup)
    : x ∈ ds.foldl (upsert key) xs ↔ (x ∈ xs ∧ key x ∉ ds.map key) ∨ x ∈ ds := by
  induction ds generalizing xs with
  | nil => simp
  | cons d ds ih =>
    rw [List.map_cons, List.nodup_cons] at hds
    rw [List.foldl_cons, ih hds.2, mem_upsert]
    simp only [List.map_cons, List.mem_cons, not_or]
    constructor
    . rintro (⟨⟨hx, hne⟩ | rfl, hnotin⟩ | hx)
      . exact .inl ⟨hx, hne, hnotin⟩
      . exact .inr (.inl rfl)
      . exact .inr (.inr hx)
    . rintro (⟨hx, hne, hnotin⟩ | rfl | hx)
      . exact .inl ⟨.inl ⟨hx, hne⟩, hnotin⟩
      . exact .inl ⟨.inr rfl, hds.1⟩
      . exact .inr hx

theorem mem_map_upsert {k : κ} : k ∈ (upsert key xs d).map key ↔ k ∈ xs.map key ∨ k = key d := by
  simp only [List.mem_map, mem_upsert]
  constructor
  . rintro ⟨x, ⟨hx, -⟩ | rfl, rfl⟩
    . exact .inl ⟨x, hx, rfl⟩
    . exact .inr rfl
  . rintro (⟨x, hx, rfl⟩ | rfl)
    . by_cases hkey : key x = key d
      . exact ⟨d, .inr rfl, hkey.symm⟩
      . exact ⟨x, .inl ⟨hx, hkey⟩, rfl⟩
    . exact ⟨d, .inr rfl, rfl⟩

theorem upsert_of_notMem (h : key d ∉ xs.map key) : upsert key xs d = xs ++ [d] := by
  rw [upsert, if_neg]
  intro hany
  obtain ⟨x, hx, hkey⟩ := List.any_eq_true.mp hany
  exact h (List.mem_map.mpr ⟨x, hx, by simpa using hkey⟩)

theorem foldl_upsert_of_nodup (h : ((xs ++ ds).map key).Nodup) : ds.foldl (upsert key) xs = xs ++ ds := by
  induction ds generalizing xs with
  | nil => rw [List.append_nil, List.foldl_nil]
  | cons d ds ih =>
    have hnotin : key d ∉ xs.map key := by
      intro hmem
      rw [List.map_append, List.map_cons, List.nodup_append] at h
      exact h.2.2 _ hmem _ List.mem_cons_self rfl
    have happend : xs ++ d :: ds = xs ++ [d] ++ ds := (List.append_cons xs d ds)
    rw [happend] at h ⊢
    rw [List.foldl_cons, upsert_of_notMem hnotin]
    exact ih h

theorem nodup_foldl_upsert (h : (xs.map key).Nodup) (ds : List α)
    : ((ds.foldl (upsert key) xs).map key).Nodup := by
  induction ds generalizing xs with
  | nil => exact h
  | cons d ds ih => exact ih (nodup_upsert h)

theorem mem_foldl_remove
    : x ∈ ds.foldl (remove key) xs ↔ x ∈ xs ∧ key x ∉ ds.map key := by
  induction ds generalizing xs with
  | nil => simp
  | cons d ds ih =>
    rw [List.foldl_cons, ih]
    simp only [remove, List.mem_filter, decide_eq_true_eq, List.map_cons, List.mem_cons, not_or]
    tauto

theorem nodup_foldl_remove (h : (xs.map key).Nodup) (ds : List α)
    : ((ds.foldl (remove key) xs).map key).Nodup := by
  induction ds generalizing xs with
  | nil => exact h
  | cons d ds ih => exact ih (h.sublist (List.filter_sublist.map key))

end KeyedList
