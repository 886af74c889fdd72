import Mathlib.Data.List.DropRight

/-!
This module contains texts that are put together with a separator, and the parts that they are split into when
empty ones at the end are left out.
-/

namespace Splits

variable {α : Type} {sep : α} {text : List α} {parts : List (List α)}

def join (sep : α) (parts : List (List α)) : List α := [sep].intercalate parts

theorem join_singleton (part : List α) : join sep [part] = part := by
  simp [join]

theorem notMem_join {a : α} (hsep : a ≠ sep) (hparts : ∀ part ∈ parts, a ∉ part) : a ∉ join sep parts := by
  induction parts with
  | nil => simp [join]
  | cons part parts ih =>
    obtain ⟨hpart, hparts⟩ := List.forall_mem_cons.mp hparts
    cases parts with
    | nil => rwa [join_singleton]
    | cons part' parts =>
      rw [join, List.intercalate_cons_cons]
      simp only [List.mem_append, List.mem_singleton, not_or]
      exact ⟨⟨hpart, hsep⟩, ih hparts⟩

variable [DecidableEq α]

/-- A text without the separator is its only part, also if it is empty; otherwise the empty parts at the end are
left out. -/
def split (sep : α) (text : List α) : List (List α) :=
  if sep ∈ text then (text.splitOn sep).rdropWhile List.isEmpty else [text]

theorem notMem_of_mem_splitOn {part : List α} (h : part ∈ text.splitOn sep) : sep ∉ part := by
  induction text generalizing part with
  | nil =>
    rw [List.splitOn_nil, List.mem_singleton] at h
    rw [h]
    exact List.not_mem_nil
  | cons a text ih =>
    rw [List.splitOn_cons_eq_if_modifyHead] at h
    split at h
    . rcases List.mem_cons.mp h with rfl | h
      . exact List.not_mem_nil
      . exact ih h
    . next hne =>
      obtain ⟨first, rest, hparts⟩ := List.exists_cons_of_ne_nil (List.splitOn_ne_nil sep text)
      rw [hparts] at h ih
      rcases List.mem_cons.mp h with rfl | h
      . rw [List.mem_cons, not_or]
        exact ⟨fun heq => hne (beq_iff_eq.mpr heq.symm), ih List.mem_cons_self⟩
      . exact ih (List.mem_cons_of_mem _ h)

theorem notMem_of_mem_split {part : List α} (h : part ∈ split sep text) : sep ∉ part := by
  rw [split] at h
  split at h
  . exact notMem_of_mem_splitOn ((List.rdropWhile_prefix _ _).subset h)
  . next hmem =>
    rw [List.mem_singleton.mp h]
    exact hmem

/-- The parts that come back: there is one, none has the separator in it, and the last one is empty only if it is
the only one. -/
def Splittable (sep : α) (parts : List (List α)) : Prop :=
  parts ≠ [] ∧ (∀ part ∈ parts, sep ∉ part) ∧ (parts.getLast? = some [] → parts = [[]])

instance : Decidable (Splittable sep parts) := inferInstanceAs (Decidable (_ ∧ _ ∧ (_ → _)))

theorem eq_of_getLast?_split (h : (split sep text).getLast? = some []) : split sep text = [[]] := by
  rw [split] at h ⊢
  split at h
  . next hmem =>
    have hne : (text.splitOn sep).rdropWhile List.isEmpty ≠ [] := fun hnil => by simp [hnil] at h
    have hlast := (List.getLast_eq_iff_getLast?_eq_some hne).mpr h
    exact absurd (by rw [hlast]; rfl) (List.rdropWhile_last_not _ _ hne)
  . next hmem =>
    rw [List.getLast?_singleton, Option.some_inj] at h
    rw [if_neg hmem, h]

theorem split_join (h : Splittable sep parts) : split sep (join sep parts) = parts := by
  obtain ⟨hne, hparts, hlast⟩ := h
  have hback : (join sep parts).splitOn sep = parts := List.splitOn_intercalate sep hparts hne
  rw [split]
  split
  . next hmem =>
    rw [hback, List.rdropWhile_eq_self_iff]
    intro hne' hempty
    have hone := hlast ((List.getLast_eq_iff_getLast?_eq_some hne').mp (List.isEmpty_iff.mp hempty))
    rw [hone, join_singleton] at hmem
    contradiction
  . next hmem => rw [← List.splitOn_eq_singleton hmem, hback]

theorem split_join_iff : split sep (join sep parts) = parts ↔ Splittable sep parts := by
  constructor
  . intro h
    refine ⟨?_, fun part hpart => ?_, fun hlast => ?_⟩
    . rintro rfl
      simp [join, split] at h
    . exact notMem_of_mem_split (h.symm ▸ hpart)
    . rw [← h] at hlast ⊢
      exact eq_of_getLast?_split hlast
  . exact split_join

end Splits
